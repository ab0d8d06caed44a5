import OnceBuild.Cas.Blob
import OnceBuild.Core.ActionJson
import OnceBuild.Lib.Utf8

/-!
# Keys of actions

`Action::digest` hashes a domain and the action's JSON.  The domains differ in a byte that all of
them have, so neither the domain nor the JSON of one key can be read as part of the other.
-/

namespace OnceBuild.Core

open Lib
open Cas (Bytes)

inductive KeyDomain where
  | action
  | copyPath
  | exitPolicy
  deriving DecidableEq

def actionDigestDomain : Bytes := utf8Encode "once.action.v11\x00".toList

def KeyDomain.bytes : KeyDomain → Bytes
  | .action => actionDigestDomain
  | .copyPath => utf8Encode "once.action.copy_path.v2\x00".toList
  | .exitPolicy => utf8Encode "once.action.run_command.exit_policy.v1\x00".toList

/-- The byte after `once.action.`. -/
def KeyDomain.mark : KeyDomain → UInt8
  | .action => 118
  | .copyPath => 99
  | .exitPolicy => 114

lemma KeyDomain.bytes_mark (domain : KeyDomain) (rest : Bytes) :
    (domain.bytes ++ rest)[12]? = some domain.mark := by
  have hmark : domain.bytes[12]? = some domain.mark := by cases domain <;> decide
  exact (List.getElem?_append_left (getElem?_eq_some_iff.mp hmark).1).trans hmark

lemma KeyDomain.append_inj {domain domain' : KeyDomain} {rest rest' : Bytes}
    (h : domain.bytes ++ rest = domain'.bytes ++ rest') : domain = domain' ∧ rest = rest' := by
  have hmark : domain.mark = domain'.mark := by
    have hboth := domain.bytes_mark rest
    rw [h, domain'.bytes_mark rest'] at hboth
    exact (Option.some.inj hboth).symm
  obtain rfl : domain = domain' := by cases domain <;> cases domain' <;> first | rfl | cases hmark
  exact ⟨rfl, List.append_cancel_left h⟩

namespace Action

/-- Old normalized results cannot distinguish accepted exits from rejected zero. -/
def domain : Action → KeyDomain
  | .copyPath _ => .copyPath
  | .runCommand c => if c.successExitCodes.contains 0 then .action else .exitPolicy
  | _ => .action

/-- The bytes that `Action::digest` hashes, where `write` is the JSON text of a tree. -/
def keyBytes (write : Json → Bytes) (a : Action) : Bytes := a.domain.bytes ++ write a.toJson

lemma eq_of_keyBytes {write : Json → Bytes} {a b : Action}
    (hwrite : write a.toJson = write b.toJson → a.toJson = b.toJson)
    (h : a.keyBytes write = b.keyBytes write) : a = b := by
  obtain ⟨-, htext⟩ := KeyDomain.append_inj h
  exact codec.write_injective (hwrite htext)

/-- Equal keys are keys of equal actions, and an action is read back as it was written. -/
theorem keyBytes_injective {write : Json → Bytes} (a b : Action)
    (hwrite : write a.toJson = write b.toJson → a.toJson = b.toJson) :
    (a.keyBytes write = b.keyBytes write → a = b) ∧ fromJson a.toJson = some a :=
  ⟨eq_of_keyBytes hwrite, a.read_toJson⟩

def escaped (c : Char) : Text :=
  match c.toNat with
  | 8 => "\\b".toList
  | 9 => "\\t".toList
  | 10 => "\\n".toList
  | 12 => "\\f".toList
  | 13 => "\\r".toList
  | 34 | 92 => ['\\', c]
  | n => if n < 32 then "\\u00".toList ++ [Nat.digitChar (n / 16), Nat.digitChar (n % 16)] else [c]

def quoted (t : Text) : Text := Char.ofNat 34 :: t.flatMap escaped ++ [Char.ofNat 34]

mutual

/-- The text of `serde_json::to_vec`; a float, which no action has, stands by its bits. -/
def jsonText : Json → Text
  | .null => "null".toList
  | .bool value => (toString value).toList
  | .int value => (toString value).toList
  | .float bits => (toString bits).toList
  | .string value => quoted value
  | .array items => '[' :: itemsText [] items ++ [']']
  | .object fields => Char.ofNat 123 :: fieldsText [] fields ++ [Char.ofNat 125]

def itemsText (separator : Text) : List Json → Text
  | [] => []
  | item :: rest => separator ++ jsonText item ++ itemsText [','] rest

def fieldsText (separator : Text) : List (Text × Json) → Text
  | [] => []
  | (key, value) :: rest =>
    separator ++ quoted key ++ ':' :: jsonText value ++ fieldsText [','] rest

end

def toVec (tree : Json) : Bytes := utf8Encode (jsonText tree)

def root : WorkspacePath := rootPath

theorem keyBytes_injective_writeFile : ((writeFile ⟨root, [7], none⟩).keyBytes toVec =
        (linkPath ⟨root, root, some (.ofDigit 0)⟩).keyBytes toVec →
      writeFile ⟨root, [7], none⟩ = linkPath ⟨root, root, some (.ofDigit 0)⟩) ∧
    fromJson (writeFile ⟨root, [7], none⟩).toJson = some (writeFile ⟨root, [7], none⟩) :=
  keyBytes_injective _ _ fun htext => absurd htext (by decide)

end Action

end OnceBuild.Core
