import Mathlib.Algebra.GroupWithZero.Nat
import Mathlib.Data.Char
import Mathlib.Data.List.Lex
import OnceBuild.Lib.PathText
import OnceBuild.Lib.SortedMap

/-!
# JSON trees and the types that are written as such

A `Codec` writes values of a type as trees and reads them back; reading what was written is part of
it.  Records are written field by field.  A field that is skipped when it holds its default has to
be read as the default when it is missing, which is what a `FieldCodec` promises.
-/

namespace OnceBuild.Lib

open List

/-- A JSON tree.  Floating point numbers are told apart by their bits. -/
inductive Json where
  | null
  | bool (value : Bool)
  | int (value : Int)
  | float (bits : UInt64)
  | string (value : Text)
  | array (items : List Json)
  | object (fields : List (Text × Json))

/-! ## Values -/

/-- `Map::insert` of a map that keeps the order of its keys. -/
def setField (key : Text) (value : Json) : List (Text × Json) → List (Text × Json)
  | [] => [(key, value)]
  | field :: rest =>
    if field.1 = key then (key, value) :: rest else field :: setField key value rest

mutual

def Json.distinct : Json → Bool
  | .array items => Json.distinctItems items
  | .object fields => Json.distinctFields fields
  | _ => true

def Json.distinctItems : List Json → Bool
  | [] => true
  | item :: rest => item.distinct && Json.distinctItems rest

def Json.distinctFields : List (Text × Json) → Bool
  | [] => true
  | (key, value) :: rest =>
    !(rest.any fun field => field.1 == key) && value.distinct && Json.distinctFields rest

end

mutual

/-- The tree as a reader builds it: of equal keys the last one counts. -/
def Json.dedup : Json → Json
  | .array items => .array (Json.dedupItems items)
  | .object fields => .object (Json.dedupFields [] fields)
  | tree => tree

def Json.dedupItems : List Json → List Json
  | [] => []
  | item :: rest => item.dedup :: Json.dedupItems rest

def Json.dedupFields (seen : List (Text × Json)) : List (Text × Json) → List (Text × Json)
  | [] => seen
  | (key, value) :: rest => Json.dedupFields (setField key value.dedup seen) rest

end

variable {key : Text} {fields : List (Text × Json)}

lemma setField_of_notMem {value : Json} (h : ∀ field ∈ fields, field.1 ≠ key) :
    setField key value fields = fields ++ [(key, value)] := by
  induction fields with
  | nil => rfl
  | cons field fields ih =>
    rw [setField, if_neg (h field mem_cons_self),
      ih fun other hother => h other (mem_cons_of_mem _ hother), cons_append]

mutual

lemma Json.dedup_of_distinct (tree : Json) (h : tree.distinct = true) : tree.dedup = tree := by
  cases tree with
  | array items =>
    rw [Json.distinct] at h
    rw [Json.dedup, Json.dedupItems_of_distinct items h]
  | object fields =>
    rw [Json.distinct] at h
    rw [Json.dedup, Json.dedupFields_of_distinct [] fields h nofun, nil_append]
  | _ => rfl

lemma Json.dedupItems_of_distinct (items : List Json) (h : Json.distinctItems items = true) :
    Json.dedupItems items = items := by
  cases items with
  | nil => rfl
  | cons item items =>
    rw [Json.distinctItems, Bool.and_eq_true] at h
    rw [Json.dedupItems, Json.dedup_of_distinct item h.1, Json.dedupItems_of_distinct items h.2]

lemma Json.dedupFields_of_distinct (seen fields : List (Text × Json))
    (h : Json.distinctFields fields = true)
    (hseen : ∀ earlier ∈ seen, ∀ field ∈ fields, earlier.1 ≠ field.1) :
    Json.dedupFields seen fields = seen ++ fields := by
  cases fields with
  | nil => exact (append_nil seen).symm
  | cons field fields =>
    obtain ⟨key, value⟩ := field
    rw [Json.distinctFields, Bool.and_eq_true, Bool.and_eq_true] at h
    obtain ⟨⟨hkey, hvalue⟩, hrest⟩ := h
    have hset : setField key value seen = seen ++ [(key, value)] :=
      setField_of_notMem fun earlier hearlier => hseen earlier hearlier _ mem_cons_self
    have hnext : ∀ earlier ∈ seen ++ [(key, value)], ∀ field ∈ fields, earlier.1 ≠ field.1 := by
      intro earlier hearlier field hfield
      rcases mem_append.mp hearlier with hearlier | hearlier
      · exact hseen earlier hearlier field (mem_cons_of_mem _ hfield)
      · obtain rfl := mem_singleton.mp hearlier
        have hnot := any_eq_false.mp (Bool.not_eq_true' _ ▸ hkey) field hfield
        exact fun heq => hnot (beq_iff_eq.mpr heq.symm)
    rw [Json.dedupFields, Json.dedup_of_distinct value hvalue, hset,
      Json.dedupFields_of_distinct _ fields hrest hnext, append_assoc, singleton_append]

end

variable {field : Text × Json}

lemma Json.distinctFields_cons {rest : List (Text × Json)} :
    Json.distinctFields (field :: rest) = true ↔
      (∀ other ∈ rest, other.1 ≠ field.1) ∧ field.2.distinct = true ∧
        Json.distinctFields rest = true := by
  rw [Json.distinctFields, Bool.and_eq_true, Bool.and_eq_true, and_assoc, Bool.not_eq_true',
    any_eq_false]
  simp only [beq_iff_eq, ne_eq]

lemma mem_setField {value : Json} (h : field ∈ setField key value fields) :
    field.1 = key ∨ field ∈ fields := by
  induction fields with
  | nil => exact .inl (congrArg Prod.fst (mem_singleton.mp h))
  | cons first fields ih =>
    unfold setField at h
    split at h
    case isTrue =>
      rcases mem_cons.mp h with rfl | hrest
      · exact .inl rfl
      · exact .inr (mem_cons_of_mem _ hrest)
    case isFalse =>
      rcases mem_cons.mp h with rfl | hrest
      · exact .inr mem_cons_self
      · exact (ih hrest).imp id (mem_cons_of_mem _)

lemma distinct_setField {value : Json} (hvalue : value.distinct = true)
    (h : Json.distinctFields fields = true) :
    Json.distinctFields (setField key value fields) = true := by
  induction fields with
  | nil => exact Json.distinctFields_cons.mpr ⟨nofun, hvalue, rfl⟩
  | cons first fields ih =>
    obtain ⟨hkeys, hfirst, hrest⟩ := Json.distinctFields_cons.mp h
    unfold setField
    split
    case isTrue heq => exact Json.distinctFields_cons.mpr ⟨heq ▸ hkeys, hvalue, hrest⟩
    case isFalse hne =>
      refine Json.distinctFields_cons.mpr ⟨fun other hother => ?_, hfirst, ih hrest⟩
      rcases mem_setField hother with heq | hother
      · exact fun hsame => hne (hsame.symm.trans heq)
      · exact hkeys other hother

mutual

lemma Json.distinct_dedup (tree : Json) : tree.dedup.distinct = true := by
  cases tree with
  | array items =>
    rw [Json.dedup, Json.distinct]
    exact Json.distinct_dedupItems items
  | object fields =>
    rw [Json.dedup, Json.distinct]
    exact Json.distinct_dedupFields [] fields rfl
  | _ => rfl

lemma Json.distinct_dedupItems (items : List Json) :
    Json.distinctItems (Json.dedupItems items) = true := by
  cases items with
  | nil => rfl
  | cons item items =>
    rw [Json.dedupItems, Json.distinctItems, Bool.and_eq_true]
    exact ⟨Json.distinct_dedup item, Json.distinct_dedupItems items⟩

lemma Json.distinct_dedupFields (seen fields : List (Text × Json))
    (h : Json.distinctFields seen = true) :
    Json.distinctFields (Json.dedupFields seen fields) = true := by
  cases fields with
  | nil => exact h
  | cons field fields =>
    obtain ⟨key, value⟩ := field
    rw [Json.dedupFields]
    exact Json.distinct_dedupFields _ fields (distinct_setField (Json.distinct_dedup value) h)

end

/-- `serde_json::Value`: the keys of an object are distinct. -/
structure JsonValue where
  tree : Json
  distinct : tree.distinct = true

/-! ## Codecs -/

/-- How values of a type are written as trees and read back. -/
structure Codec (α : Type) where
  write : α → Json
  read : Json → Option α
  read_write : ∀ a, read (write a) = some a

namespace Codec

variable {α β : Type} (c : Codec α)

lemma write_injective {a b : α} (h : c.write a = c.write b) : a = b := by
  have hread := c.read_write b
  rw [← h, c.read_write a] at hread
  exact Option.some.inj hread

/-- A type that is converted into another one before it is written; the conversion back may fail. -/
def via (into : β → α) (tryFrom : α → Option β) (h : ∀ b, tryFrom (into b) = some b) : Codec β where
  write b := c.write (into b)
  read tree := (c.read tree).bind tryFrom
  read_write b := (congrArg (Option.bind · tryFrom) (c.read_write (into b))).trans (h b)

def readInt : Json → Option Int
  | .int value => some value
  | _ => none

def int : Codec Int := ⟨Json.int, readInt, fun _ => rfl⟩

def ranged (lower upper : Int) (into : β → Int) (back : Int → β)
    (hrange : ∀ b, lower ≤ into b ∧ into b < upper) (hback : ∀ b, back (into b) = b) : Codec β :=
  int.via into (fun i => if lower ≤ i ∧ i < upper then some (back i) else none)
    fun b => by rw [if_pos (hrange b), hback b]

def readText : Json → Option Text
  | .string value => some value
  | _ => none

def text : Codec Text := ⟨Json.string, readText, fun _ => rfl⟩

def value : Codec JsonValue :=
  ⟨JsonValue.tree, fun tree => some ⟨tree.dedup, Json.distinct_dedup tree⟩,
    fun value => by simp only [Json.dedup_of_distinct value.tree value.distinct]⟩

def readList : Json → Option (List α)
  | .array items => items.mapM c.read
  | _ => none

lemma mapM_read_write (l : List α) : (l.map c.write).mapM c.read = some l := by
  induction l with
  | nil => rfl
  | cons a l ih => simp [mapM_cons, c.read_write, ih]

def list : Codec (List α) :=
  ⟨fun l => .array (l.map c.write), c.readList, c.mapM_read_write⟩

/-- An enumeration without data is written as the name of the value. -/
def enumeration [DecidableEq α] (values : List α) (name : α → Text)
    (h : ∀ a, (values.find? fun b => name b == name a) = some a) : Codec α :=
  text.via name (fun t => values.find? fun b => name b == t) h

def readEntries (c : Codec β) : Json → Option (List (Text × β))
  | .object fields => fields.mapM fun field => (c.read field.2).map fun b => (field.1, b)
  | _ => none

lemma readEntries_write (c : Codec β) (entries : List (Text × β)) :
    c.readEntries (.object (entries.map fun entry => (entry.1, c.write entry.2))) =
      some entries := by
  unfold readEntries
  induction entries with
  | nil => rfl
  | cons entry entries ih => simp [mapM_cons, c.read_write, ih]

/-- A map is written in the order of its keys. -/
def map (c : Codec β) : Codec (SortedMap Text β) :=
  ⟨fun m => .object (m.entries.map fun entry => (entry.1, c.write entry.2)),
    fun tree => (c.readEntries tree).map SortedMap.ofEntries,
    fun m => by rw [readEntries_write, Option.map_some, SortedMap.ofEntries_entries]⟩

end Codec

/-! ## Fields -/

/-- How a field is written, if at all, and read when it is there or missing. -/
structure FieldCodec (α : Type) where
  write : α → Option Json
  read : Option Json → Option α
  read_write : ∀ a, read (write a) = some a

/-- The value of a field among the fields of an object; a field that is there twice is refused. -/
def fieldOf (fields : List (Text × Json)) (name : Text) : Option (Option Json) :=
  match fields.filter fun field => field.1 == name with
  | [] => some none
  | [field] => some (some field.2)
  | _ => none

/-- The fields that are not skipped. -/
def written (pieces : List (Text × Option Json)) : List (Text × Json) :=
  pieces.filterMap fun piece => piece.2.map fun tree => (piece.1, tree)

variable {pieces : List (Text × Option Json)}

lemma mem_written (h : field ∈ written pieces) : field.1 ∈ pieces.map Prod.fst := by
  obtain ⟨piece, hpiece, hwritten⟩ := mem_filterMap.mp h
  obtain ⟨tree, -, rfl⟩ := Option.map_eq_some_iff.mp hwritten
  exact mem_map.mpr ⟨piece, hpiece, rfl⟩

variable {name : Text}

lemma filter_written_of_notMem (h : name ∉ pieces.map Prod.fst) :
    ((written pieces).filter fun field => field.1 == name) = [] := by
  refine filter_eq_nil_iff.mpr fun field hfield heq => h ?_
  exact eq_of_beq heq ▸ mem_written hfield

lemma written_cons {piece : Option Json} : written ((name, piece) :: pieces) =
    (piece.map fun tree => (name, tree)).toList ++ written pieces := by
  cases piece <;> rfl

lemma fieldOf_cons_self {piece : Option Json} (h : name ∉ pieces.map Prod.fst) :
    fieldOf (written ((name, piece) :: pieces)) name = some piece := by
  unfold fieldOf
  rw [written_cons, filter_append, filter_written_of_notMem h]
  cases piece <;> simp

lemma fieldOf_cons_ne {piece : Option Json} (h : other ≠ name) :
    fieldOf (written ((other, piece) :: pieces)) name = fieldOf (written pieces) name := by
  unfold fieldOf
  rw [written_cons]
  cases piece <;> simp [h]

namespace FieldCodec

variable {α : Type} (c : Codec α)

/-- A field that is always written and has to be there. -/
def readRequired : Option Json → Option α
  | none => none
  | some tree => c.read tree

def required : FieldCodec α :=
  ⟨fun a => some (c.write a), readRequired c, c.read_write⟩

/-- `skip_serializing_if = "Option::is_none"` with a default. -/
def readOptional : Option Json → Option (Option α)
  | none => some none
  | some .null => some none
  | some tree => (c.read tree).map some

lemma readOptional_write (h : ∀ a, c.write a ≠ .null) (a : Option α) :
    readOptional c (a.map c.write) = some a := by
  cases a with
  | none => rfl
  | some a =>
    have hread : readOptional c (some (c.write a)) = (c.read (c.write a)).map some := by
      unfold readOptional
      split
      next heq => cases heq
      next heq => exact absurd (Option.some.inj heq) (h a)
      next tree _ heq => rw [Option.some.inj heq]
    rw [Option.map_some, hread, c.read_write, Option.map_some]

def optional (h : ∀ a, c.write a ≠ .null) : FieldCodec (Option α) :=
  ⟨Option.map c.write, readOptional c, readOptional_write c h⟩

/-- `skip_serializing_if` with a test for the default. -/
def writeUnless (skip : α → Bool) (c : Codec α) (a : α) : Option Json :=
  if skip a then none else some (c.write a)

def readDefault (fallback : α) (c : Codec α) : Option Json → Option α
  | none => some fallback
  | some tree => c.read tree

lemma readDefault_writeUnless {skip : α → Bool} {fallback : α} (c : Codec α)
    (h : ∀ a, skip a = true → a = fallback) (a : α) :
    readDefault fallback c (writeUnless skip c a) = some a := by
  unfold writeUnless
  split
  case isTrue hskip => exact congrArg some (h a hskip).symm
  case isFalse => exact c.read_write a

def skipped (skip : α → Bool) (fallback : α) (c : Codec α)
    (h : ∀ a, skip a = true → a = fallback) : FieldCodec α :=
  ⟨writeUnless skip c, readDefault fallback c, readDefault_writeUnless c h⟩

def readIn (f : FieldCodec α) (fields : List (Text × Json)) (name : Text) : Option α :=
  (fieldOf fields name).bind f.read

@[simp] lemma readIn_cons_self {f : FieldCodec α} {a : α} (h : name ∉ pieces.map Prod.fst) :
    f.readIn (written ((name, f.write a) :: pieces)) name = some a := by
  unfold readIn
  rw [fieldOf_cons_self h]
  exact f.read_write a

@[simp] lemma readIn_cons_ne {f : FieldCodec α} {piece : Option Json} (h : other ≠ name) :
    f.readIn (written ((other, piece) :: pieces)) name = f.readIn (written pieces) name := by
  unfold readIn
  rw [fieldOf_cons_ne h]

end FieldCodec

namespace Codec

variable {α : Type}

def readRecord (read : List (Text × Json) → Option α) : Json → Option α
  | .object fields => read fields
  | _ => none

def record (pieces : α → List (Text × Option Json)) (read : List (Text × Json) → Option α)
    (h : ∀ a, read (written (pieces a)) = some a) : Codec α :=
  ⟨fun a => .object (written (pieces a)), readRecord read, h⟩

end Codec

end OnceBuild.Lib
