import Solovey.Json.Value

/-!
# Structs as JSON objects

How a struct is written as an object and read back, in the manner of a reflective encoder. It is
written as the list of its entries, in declaration order and without the omitted ones. It is read
member by member: the name of a member selects the field up to letter case, and a member that
selects no field is an error.

As the fields do not share storage, reading a struct is reading each of its fields over all members
(`readField`).
-/

namespace Solovey.Json

open Solovey.Text List

/-- A map with string keys, listed in the order of its keys. -/
abbrev StringMap (α : Type) := Std.ExtTreeMap String α compare

/-! ## Writing -/

/-- A field of a struct and its value, `none` for a field that is left out. -/
abbrev Entry := String × Option Value

def Members.ofEntries : List Entry → Members
  | [] => .nil
  | (_, none) :: rest => .ofEntries rest
  | (name, some v) :: rest => .cons (.quote name) v (.ofEntries rest)

/-- The object of a struct. -/
def Value.ofEntries (es : List Entry) : Value := .obj (.ofEntries es)

def Value.ofString (s : String) : Value := .str (.quote s)

def Value.ofUInt64 (n : UInt64) : Value := .num (.ofNat n.toNat)

def Value.ofInt64 (n : Int64) : Value := .num (.ofInt n.toInt)

/-- The object of a map, its keys in order. -/
def Value.ofMap {α : Type} (write : α → Value) (m : StringMap α) : Value :=
  .ofEntries (m.toList.map fun e => (e.1, some (write e.2)))

/-! Fields that are left out when they are empty. -/

def omitString (s : String) : Option Value := if s = "" then none else some (.ofString s)

def omitUInt64 (n : UInt64) : Option Value := if n = 0 then none else some (.ofUInt64 n)

def omitInt64 (n : Int64) : Option Value := if n = 0 then none else some (.ofInt64 n)

def omitBool (b : Bool) : Option Value := if b then some (.bool b) else none

/-! ## Reading -/

/-- A reader updates the current value of a field. -/
abbrev Reader (α : Type) := Value → α → Option α

def readString : Reader String
  | .str s, _ => some (StrLit.value s)
  | .null, cur => some cur
  | _, _ => none

def readBool : Reader Bool
  | .bool b, _ => some b
  | .null, cur => some cur
  | _, _ => none

def readUInt64 : Reader UInt64
  | .num n, _ => (parseNat n.1).bind fun k => if k < 2 ^ 64 then some (.ofNat k) else none
  | .null, cur => some cur
  | _, _ => none

def readInt64 : Reader Int64
  | .num n, _ => (parseInt n.1).bind fun z =>
    if -2 ^ 63 ≤ z ∧ z < 2 ^ 63 then some (.ofInt z) else none
  | .null, cur => some cur
  | _, _ => none

/-- A field that keeps the value as it stands, `null` included. -/
def readRaw : Reader (Option Value) := fun v _ => some (some v)

/-- A pointer: `null` clears it, any other value is read into what it points to. -/
def readPointer {α : Type} (zero : α) (read : Reader α) : Reader (Option α)
  | .null, _ => some none
  | v, cur => (read v (cur.getD zero)).map some

/-- The members of an object as entries of a map; each value is read into a zero value. -/
def readMembers {α : Type} (zero : α) (read : Reader α) :
    Members → StringMap α → Option (StringMap α)
  | .nil, cur => some cur
  | .cons key v rest, cur =>
    (read v zero).bind fun a => readMembers zero read rest (cur.insert (StrLit.value key) a)

/-- A map: `null` clears it, the members of an object are added to it. -/
def readMap {α : Type} (zero : α) (read : Reader α) : Reader (StringMap α)
  | .null, _ => some ∅
  | .obj ms, cur => readMembers zero read ms cur
  | _, _ => none

/-- The character up to letter case, as far as names in plain letters are concerned. -/
def foldChar (c : Char) : Char :=
  if 'a' ≤ c ∧ c ≤ 'z' then Char.ofNat (c.toNat - 32)
  else if c = '\u017F' then 'S' else if c = '\u212A' then 'K' else c

def foldName (s : String) : List Char := s.toList.map foldChar

def sameField (key : StrLit) (name : String) : Bool :=
  foldName (StrLit.value key) == foldName name

/-- Every member selects one of the fields. -/
def Members.known (names : List String) : Members → Bool
  | .nil => true
  | .cons key _ rest => names.any (sameField key) && rest.known names

/-- Reads the members of one field in turn. -/
def readField {α : Type} (name : String) (read : Reader α) (cur : α) : Members → Option α
  | .nil => some cur
  | .cons key v rest =>
    if sameField key name then (read v cur).bind fun a => readField name read a rest
    else readField name read cur rest

/-- An object is read by its members; `null` leaves a struct as it is. -/
def readStruct {α : Type} (names : List String) (read : Members → α → Option α) : Reader α
  | .obj ms, cur => if ms.known names then read ms cur else none
  | .null, cur => some cur
  | _, _ => none

/-! ## The round trip -/

@[simp] theorem readString_ofString (s c : String) : readString (.ofString s) c = some s := by
  simp [readString, Value.ofString]

@[simp] theorem readUInt64_ofUInt64 (n c : UInt64) : readUInt64 (.ofUInt64 n) c = some n := by
  simp only [readUInt64, Value.ofUInt64, parseNat_ofNat, Option.bind_some]
  rw [if_pos n.toNat_lt, UInt64.ofNat_toNat]

@[simp] theorem readInt64_ofInt64 (n c : Int64) : readInt64 (.ofInt64 n) c = some n := by
  simp only [readInt64, Value.ofInt64, parseInt_ofInt, Option.bind_some]
  rw [if_pos ⟨n.le_toInt, n.toInt_lt⟩, Int64.ofInt_toInt]

@[simp] theorem readBool_bool (b c : Bool) : readBool (.bool b) c = some b := rfl

@[simp] theorem omitString_read (s : String) :
    (omitString s).elim (some "") (fun v => readString v "") = some s := by
  unfold omitString
  split_ifs with h <;> simp [h]

@[simp] theorem omitUInt64_read (n : UInt64) :
    (omitUInt64 n).elim (some 0) (fun v => readUInt64 v 0) = some n := by
  unfold omitUInt64
  split_ifs with h <;> simp [h]

@[simp] theorem omitInt64_read (n : Int64) :
    (omitInt64 n).elim (some 0) (fun v => readInt64 v 0) = some n := by
  unfold omitInt64
  split_ifs with h <;> simp [h]

@[simp] theorem omitBool_read (b : Bool) :
    (omitBool b).elim (some false) (fun v => readBool v false) = some b := by
  cases b <;> rfl

@[simp] theorem raw_read (v : Option Value) :
    v.elim (some none) (fun v => readRaw v none) = some v := by
  cases v <;> rfl

/-- A pointer field is read back when what it points to is, and is not written as `null`. -/
theorem pointer_read {α : Type} (zero : α) (r : Reader α) (w : α → Value) (hn : ∀ a, w a ≠ .null)
    {p : Option α} (hr : ∀ a ∈ p, r (w a) zero = some a) :
    (p.map w).elim (some none) (fun v => readPointer zero r v none) = some p := by
  cases p with
  | none => rfl
  | some a =>
    rw [Option.map_some, Option.elim_some, readPointer]
    · simp [hr a rfl]
    · exact hn a

/-- Entries with distinct keys, inserted one after the other. -/
theorem getElem?_foldl_insert {α : Type} {l : List (String × α)}
    (hl : l.Pairwise fun a b => a.1 ≠ b.1) (m : StringMap α) (k : String) :
    (l.foldl (fun m e => m.insert e.1 e.2) m)[k]? =
      ((l.find? fun e => e.1 = k).map Prod.snd).or m[k]? := by
  induction l generalizing m with
  | nil => simp
  | cons e l ih =>
    obtain ⟨hne, hl⟩ := pairwise_cons.mp hl
    rw [foldl_cons, ih hl, Std.ExtTreeMap.getElem?_insert, find?_cons]
    by_cases h : e.1 = k
    · have hn : (l.find? fun e => e.1 = k) = none := by
        rw [find?_eq_none]
        intro a ha
        simpa using fun hk => hne a ha (h.trans hk.symm)
      simp [h, hn]
    · simp [h]

theorem foldl_insert_toList {α : Type} (m : StringMap α) :
    m.toList.foldl (fun m e => m.insert e.1 e.2) ∅ = m := by
  have hd : m.toList.Pairwise fun a b => a.1 ≠ b.1 := by
    refine m.distinct_keys_toList.imp ?_
    intro a b h hab
    exact h (by simp [hab])
  ext1 k
  rw [getElem?_foldl_insert hd, Std.ExtTreeMap.getElem?_empty, Option.or_none]
  cases hk : m[k]? with
  | none =>
    rw [Option.map_eq_none_iff, find?_eq_none]
    rintro ⟨k', a⟩ ha heq
    simp only [decide_eq_true_eq] at heq
    rw [Std.ExtTreeMap.mem_toList_iff_getElem?_eq_some, heq, hk] at ha
    simp at ha
  | some a =>
    have hm : (k, a) ∈ m.toList := Std.ExtTreeMap.mem_toList_iff_getElem?_eq_some.mpr hk
    cases hf : m.toList.find? fun e => e.1 = k with
    | none => simpa using find?_eq_none.mp hf _ hm
    | some e =>
      obtain ⟨k', b⟩ := e
      have heq : k' = k := by simpa using find?_some hf
      have hb := Std.ExtTreeMap.mem_toList_iff_getElem?_eq_some.mp (mem_of_find?_eq_some hf)
      rw [heq, hk] at hb
      simpa using hb.symm

/-- A map is read back from its object. -/
theorem readMap_ofMap {α : Type} {zero : α} {r : Reader α} {w : α → Value}
    (hr : ∀ a, r (w a) zero = some a) (m : StringMap α) :
    readMap zero r (.ofMap w m) ∅ = some m := by
  have hl (l : List (String × α)) (cur : StringMap α) :
      readMembers zero r (.ofEntries (l.map fun e => (e.1, some (w e.2)))) cur =
        some (l.foldl (fun m e => m.insert e.1 e.2) cur) := by
    induction l generalizing cur with
    | nil => rfl
    | cons e l ih =>
      simp only [map_cons, Members.ofEntries, readMembers, hr, StrLit.value_quote,
        Option.bind_some, ih, foldl_cons]
  rw [Value.ofMap, Value.ofEntries, readMap, hl, foldl_insert_toList]

@[simp] theorem sameField_quote (n o : String) :
    sameField (.quote n) o = (foldName n == foldName o) := by
  simp [sameField]

variable {es : List Entry}

/-- What `readField` finds among the entries of a struct. -/
theorem readField_ofEntries {α : Type} (r : Reader α) (c : α)
    (hes : (es.map fun e => foldName e.1).Nodup) {nm : String} {v : Option Value}
    (hv : (nm, v) ∈ es) :
    readField nm r c (.ofEntries es) = v.elim (some c) fun v => r v c := by
  -- a field that is not among the entries keeps its value
  have ha (es : List Entry) (h : foldName nm ∉ es.map fun e => foldName e.1) (c : α) :
      readField nm r c (.ofEntries es) = some c := by
    induction es with
    | nil => rfl
    | cons e es ih =>
      obtain ⟨n, v⟩ := e
      simp only [map_cons, mem_cons, not_or] at h
      cases v with
      | none => exact ih h.2
      | some v => simp [Members.ofEntries, readField, Ne.symm h.1, ih h.2]
  induction es with
  | nil => simp at hv
  | cons e es ih =>
    obtain ⟨n, w⟩ := e
    simp only [map_cons, nodup_cons] at hes
    rcases mem_cons.mp hv with heq | hm
    · obtain ⟨rfl, rfl⟩ := Prod.mk.inj heq
      cases v with
      | none => exact ha es hes.1 c
      | some v => simp [Members.ofEntries, readField, ha es hes.1]
    · cases w with
      | none => exact ih hes.2 hm
      | some w =>
        have hne : foldName n ≠ foldName nm := fun h => hes.1 (mem_map.mpr ⟨(nm, v), hm, h.symm⟩)
        simp [Members.ofEntries, readField, hne, ih hes.2 hm]

/-- `readField_ofEntries` for a list of entries that can be searched by name. -/
theorem readField_lookup {α : Type} (r : Reader α) (c : α)
    (hes : (es.map fun e => foldName e.1).Nodup) (n : String) (hn : (es.lookup n).isSome) :
    readField n r c (.ofEntries es) = ((es.lookup n).getD none).elim (some c) fun v => r v c := by
  obtain ⟨v, hv⟩ := Option.isSome_iff_exists.mp hn
  have hm : (n, v) ∈ es := by
    obtain ⟨l₁, l₂, rfl, -⟩ := lookup_eq_some_iff.mp hv
    simp
  rw [readField_ofEntries r c hes hm, hv, Option.getD_some]

theorem Members.known_ofEntries {ns : List String} (h : ∀ e ∈ es, e.1 ∈ ns) :
    (Members.ofEntries es).known ns = true := by
  induction es with
  | nil => rfl
  | cons e es ih =>
    obtain ⟨n, v⟩ := e
    have ih' := ih fun e he => h e (mem_cons_of_mem _ he)
    cases v with
    | none => exact ih'
    | some v =>
      simp only [Members.ofEntries, Members.known, ih', Bool.and_true, any_eq_true]
      exact ⟨n, h (n, some v) mem_cons_self, by simp⟩

theorem readStruct_ofEntries {ns : List String} {r : Members → α → Option α} {c : α}
    (h : ∀ e ∈ es, e.1 ∈ ns) :
    readStruct ns r (.ofEntries es) c = r (.ofEntries es) c :=
  if_pos (Members.known_ofEntries h)

end Solovey.Json
