import Mathlib.Logic.Function.Basic
import Solovey.Text.Strings

/-!
# References between remote outbounds

`components/remote-outbound-subscriptions/domain/sync.go`: the outbounds of a subscription name each
other by tag, by shown name or by source key. Before a connection is stored, these references are
replaced by tags. Tags, names and keys share one map that is filled in row order, so that the name
of a later connection takes the place of the tag of an earlier one.
-/

namespace Solovey.RemoteOutbound

open Solovey.Text List

/-! ## The map -/

/-- What the map reads of a connection; `displayName` is the one of its captured form, if any. -/
structure NamedConnection where
  outboundTag : Str
  name : Str := []
  displayName : Str := []
  sourceKey : Str := []
  deriving DecidableEq, Repr

namespace NamedConnection

variable (c : NamedConnection)

def tag : Str := trimSpace c.outboundTag

def shown : Str := trimSpace (if c.displayName ≠ [] then c.displayName else c.name)

def key : Str := trimSpace c.sourceKey

end NamedConnection

/-- One round of `remoteConnectionTagMap`. A missing entry reads as the empty tag. -/
def addConnection (tagMap : Str → Str) (c : NamedConnection) : Str → Str :=
  if c.tag = [] then tagMap
  else
    let tagMap := Function.update tagMap c.tag c.tag
    let tagMap := if c.shown ≠ [] then Function.update tagMap c.shown c.tag else tagMap
    if c.key ≠ [] then Function.update tagMap c.key c.tag else tagMap

def remoteConnectionTagMap (connections : List NamedConnection) : Str → Str :=
  connections.foldl addConnection fun _ => []

def rewriteOutboundTag (tagMap : Str → Str) (tag : Str) : Str :=
  if tagMap (trimSpace tag) ≠ [] then tagMap (trimSpace tag) else tag

/-! ## Configurations -/

mutual

/-- A decoded JSON value; `atom` is a number, a truth value or null. -/
inductive Value
  | str (text : Str)
  | arr (items : Values)
  | obj (fields : Fields)
  | atom (text : Str)

inductive Values
  | nil
  | cons (head : Value) (tail : Values)

/-- The entries of a map. -/
inductive Fields
  | nil
  | cons (key : Str) (value : Value) (rest : Fields)

end

def Values.map (f : Value → Value) : Values → Values
  | .nil => .nil
  | .cons head tail => .cons (f head) (tail.map f)

def Fields.map (f : Str → Value → Value) : Fields → Fields
  | .nil => .nil
  | .cons key value rest => .cons key (f key value) (rest.map f)

section Rewriting

variable (rewrite : Str → Str)

def rewriteText : Value → Value
  | .str text => .str (rewrite text)
  | value => value

/-- Rewrite one field of an object that holds a reference. -/
def rewriteField (name : String) : Value → Value
  | .obj fields => .obj (fields.map fun key value =>
      if key = name.toList then rewriteText rewrite value else value)
  | value => value

/-- The members of a group: references, or objects with one. -/
def rewriteOutboundTagList : Value → Value
  | .arr items => .arr (items.map fun item => rewriteField rewrite "outbound" (rewriteText rewrite item))
  | value => value

mutual

/-- The rules of a route, with the rules inside them. -/
def rewriteRules : Values → Values
  | .nil => .nil
  | .cons rule rest => .cons (rewriteRule rule) (rewriteRules rest)

def rewriteRule : Value → Value
  | .obj fields => .obj (rewriteRuleFields fields)
  | value => value

def rewriteRuleFields : Fields → Fields
  | .nil => .nil
  | .cons key value rest => .cons key (rewriteRuleField key value) (rewriteRuleFields rest)

def rewriteRuleField (key : Str) : Value → Value
  | .str text => .str (if key = "outbound".toList then rewrite text else text)
  | .arr children => .arr (if key = "rules".toList then rewriteRules children else children)
  | value => value

end

def rewriteRouteField (key : Str) : Value → Value
  | .str text => .str (if key = "final".toList then rewrite text else text)
  | .arr items =>
    if key = "rules".toList then .arr (rewriteRules rewrite items)
    else if key = "rule_set".toList then .arr (items.map (rewriteField rewrite "download_detour"))
    else .arr items
  | value => value

def rewriteRoute : Value → Value
  | .obj fields => .obj (fields.map (rewriteRouteField rewrite))
  | value => value

def rewriteRootField (key : Str) (value : Value) : Value :=
  if key = "outbounds".toList then rewriteOutboundTagList rewrite value
  else if key = "route".toList then rewriteRoute rewrite value
  else if key = "default".toList then rewriteText rewrite value
  else value

end Rewriting

def rewriteOutboundTagReferences (raw : Fields) (tagMap : Str → Str) : Fields :=
  raw.map (rewriteRootField (rewriteOutboundTag tagMap))

/-! ## Rewriting twice -/

theorem Values.map_map {f : Value → Value} (hf : ∀ v, f (f v) = f v) :
    ∀ it : Values, (it.map f).map f = it.map f
  | .nil => rfl
  | .cons head tail => by rw [map, map, hf, map_map hf tail]

theorem Fields.map_map {f : Str → Value → Value} (hf : ∀ key v, f key (f key v) = f key v) :
    ∀ fields : Fields, (fields.map f).map f = fields.map f
  | .nil => rfl
  | .cons key value rest => by rw [map, map, hf, map_map hf rest]

section Twice

variable {r : Str → Str}

mutual

theorem rewriteRules_twice (hr : ∀ text, r (r text) = r text) : ∀ rs : Values,
    rewriteRules r (rewriteRules r rs) = rewriteRules r rs
  | .nil => rfl
  | .cons rule rest => by
    rw [rewriteRules, rewriteRules, rewriteRule_twice hr rule, rewriteRules_twice hr rest]

theorem rewriteRule_twice (hr : ∀ text, r (r text) = r text) : ∀ rl : Value,
    rewriteRule r (rewriteRule r rl) = rewriteRule r rl
  | .obj fields => by rw [rewriteRule, rewriteRule, rewriteRuleFields_twice hr fields]
  | .str _ | .arr _ | .atom _ => rfl

theorem rewriteRuleFields_twice (hr : ∀ text, r (r text) = r text) : ∀ fields : Fields,
    rewriteRuleFields r (rewriteRuleFields r fields) = rewriteRuleFields r fields
  | .nil => rfl
  | .cons key value rest => by
    rw [rewriteRuleFields, rewriteRuleFields, rewriteRuleField_twice hr key value,
      rewriteRuleFields_twice hr rest]

theorem rewriteRuleField_twice (hr : ∀ text, r (r text) = r text) (k : Str) : ∀ value : Value,
    rewriteRuleField r k (rewriteRuleField r k value) = rewriteRuleField r k value
  | .str text => by
    rw [rewriteRuleField, rewriteRuleField]
    split
    · rw [hr]
    · rfl
  | .arr children => by
    rw [rewriteRuleField, rewriteRuleField]
    split
    · rw [rewriteRules_twice hr children]
    · rfl
  | .obj _ | .atom _ => rfl

end

variable (hr : ∀ text, r (r text) = r text)
include hr

theorem rewriteText_twice (v : Value) : rewriteText r (rewriteText r v) = rewriteText r v := by
  cases v with
  | str text => rw [rewriteText, rewriteText, hr]
  | arr | obj | atom => rfl

theorem rewriteField_twice (n : String) (v : Value) :
    rewriteField r n (rewriteField r n v) = rewriteField r n v := by
  cases v with
  | obj fields =>
    rw [rewriteField, rewriteField, Fields.map_map]
    intro key v
    split
    · exact rewriteText_twice hr v
    · rfl
  | arr | str | atom => rfl

theorem rewriteOutboundTagList_twice (v : Value) :
    rewriteOutboundTagList r (rewriteOutboundTagList r v) = rewriteOutboundTagList r v := by
  cases v with
  | arr it =>
    rw [rewriteOutboundTagList, rewriteOutboundTagList, Values.map_map]
    intro i
    cases i with
    | str text => exact congrArg Value.str (hr text)
    | obj fields => exact rewriteField_twice hr "outbound" (.obj fields)
    | arr | atom => rfl
  | obj | str | atom => rfl

theorem rewriteRouteField_twice (k : Str) (v : Value) :
    rewriteRouteField r k (rewriteRouteField r k v) = rewriteRouteField r k v := by
  cases v with
  | str text =>
    rw [rewriteRouteField, rewriteRouteField]
    split
    · rw [hr]
    · rfl
  | arr it =>
    rw [rewriteRouteField]
    split_ifs with hrl hs
    · rw [rewriteRouteField, if_pos hrl, rewriteRules_twice hr]
    · rw [rewriteRouteField, if_neg hrl, if_pos hs,
        Values.map_map (rewriteField_twice hr "download_detour")]
    · rw [rewriteRouteField, if_neg hrl, if_neg hs]
  | obj | atom => rfl

theorem rewriteRootField_twice (k : Str) (v : Value) :
    rewriteRootField r k (rewriteRootField r k v) = rewriteRootField r k v := by
  unfold rewriteRootField
  split_ifs
  · exact rewriteOutboundTagList_twice hr v
  · cases v with
    | obj fields => rw [rewriteRoute, rewriteRoute, Fields.map_map (rewriteRouteField_twice hr)]
    | str | arr | atom => rfl
  · exact rewriteText_twice hr v
  · rfl

end Twice

/-! ## What the map holds -/

/-- The connection writes an entry of the map. -/
def NamedConnection.writes (c : NamedConnection) (reference : Str) : Bool :=
  c.tag ≠ [] && (reference = c.tag || reference = c.shown || reference = c.key)

variable {connections : List NamedConnection} {reference : Str}

theorem addConnection_apply (hne : reference ≠ []) (tm : Str → Str) (c : NamedConnection) :
    addConnection tm c reference = if c.writes reference then c.tag else tm reference := by
  unfold addConnection NamedConnection.writes
  by_cases ht : c.tag = []
  · simp [ht]
  by_cases hky : reference = c.key
  · have hk : c.key ≠ [] := hky ▸ hne
    simp [ht, hky, hk]
  by_cases hs : reference = c.shown
  · have hk : c.shown ≠ [] := hs ▸ hne
    rw [hs] at hky
    by_cases he : c.key = [] <;> simp [ht, hs, hk, he, hky]
  · by_cases he : c.key = [] <;> by_cases hb : c.shown = [] <;>
      simp [ht, he, hb, Function.update_apply, hky, hs, hne]

/-- The last connection that writes an entry decides what it holds. -/
theorem remoteConnectionTagMap_eq (hne : reference ≠ []) :
    remoteConnectionTagMap connections reference =
      ((connections.reverse.find? (·.writes reference)).map (·.tag)).getD [] := by
  induction connections using List.reverseRecOn with
  | nil => rfl
  | append_singleton connections c ih =>
    rw [remoteConnectionTagMap, foldl_concat, ← remoteConnectionTagMap,
      addConnection_apply hne, reverse_concat, find?_cons]
    cases c.writes reference with
    | true => rfl
    | false => exact ih

theorem remoteConnectionTagMap_nil : remoteConnectionTagMap connections [] = [] := by
  induction connections using List.reverseRecOn with
  | nil => rfl
  | append_singleton connections c ih =>
    rw [remoteConnectionTagMap, foldl_concat, ← remoteConnectionTagMap, addConnection]
    split
    · exact ih
    next ht =>
      by_cases hk : c.key = [] <;> by_cases hs : c.shown = [] <;>
        simp [hk, hs, ih, Function.update_of_ne, Ne.symm, ht]

/-- No connection is followed by one that has its tag as a name or as a key, unless its tag comes
once more after that. -/
def KeepsTags (connections : List NamedConnection) : Prop :=
  ∀ c ∈ connections, c.tag ≠ [] →
    ∀ last ∈ connections.reverse.find? (·.writes c.tag), last.tag = c.tag

theorem KeepsTags.lookup (h : KeepsTags connections) {c : NamedConnection} (hc : c ∈ connections)
    (hne : c.tag ≠ []) : remoteConnectionTagMap connections c.tag = c.tag := by
  have hs : (connections.reverse.find? (·.writes c.tag)).isSome :=
    find?_isSome.mpr ⟨c, mem_reverse.mpr hc, by simp [NamedConnection.writes, hne]⟩
  obtain ⟨last, hl⟩ := Option.isSome_iff_exists.mp hs
  rw [remoteConnectionTagMap_eq hne, hl]
  exact h c hc hne last hl

theorem KeepsTags.rewrite_twice (h : KeepsTags connections) (text : Str) :
    rewriteOutboundTag (remoteConnectionTagMap connections)
        (rewriteOutboundTag (remoteConnectionTagMap connections) text) =
      rewriteOutboundTag (remoteConnectionTagMap connections) text := by
  by_cases hn : remoteConnectionTagMap connections (trimSpace text) = []
  · simp only [rewriteOutboundTag, hn, ne_eq, not_true_eq_false, if_false]
  -- an entry that is found is the tag of a connection, and that is kept
  have hne : trimSpace text ≠ [] := fun he => hn <| by
    rw [he]
    exact remoteConnectionTagMap_nil
  have hr : rewriteOutboundTag (remoteConnectionTagMap connections) text =
      remoteConnectionTagMap connections (trimSpace text) := if_pos hn
  rw [remoteConnectionTagMap_eq hne] at hn hr
  cases hf : connections.reverse.find? (·.writes (trimSpace text)) with
  | none => simp [hf] at hn
  | some c =>
    simp only [hf, Option.map_some, Option.getD_some] at hn hr
    have hc : c ∈ connections := mem_reverse.mp (mem_of_find?_eq_some hf)
    rw [hr, rewriteOutboundTag, NamedConnection.tag, trimSpace_trimSpace,
      ← NamedConnection.tag, h.lookup hc hn, if_pos hn]

/-- Rewriting twice is rewriting once, and no reference to a tag is redirected, exactly if the tags
are kept. -/
theorem references_settle_iff (connections : List NamedConnection) :
    ((∀ raw, rewriteOutboundTagReferences
        (rewriteOutboundTagReferences raw (remoteConnectionTagMap connections))
          (remoteConnectionTagMap connections) =
        rewriteOutboundTagReferences raw (remoteConnectionTagMap connections)) ∧
      ∀ c ∈ connections, c.tag ≠ [] → ∀ reference, trimSpace reference = c.tag →
        rewriteOutboundTag (remoteConnectionTagMap connections) reference = c.tag) ↔
    KeepsTags connections := by
  refine ⟨fun h c hc hne last hl => ?_, fun h => ⟨fun raw => ?_, fun c hc hne text heq => ?_⟩⟩
  · have hk := h.2 c hc hne c.tag (trimSpace_trimSpace _)
    have he : remoteConnectionTagMap connections c.tag = last.tag := by
      rw [remoteConnectionTagMap_eq hne, hl, Option.map_some, Option.getD_some]
    have ht : last.tag ≠ [] := by
      have hw := find?_some hl
      simp only [NamedConnection.writes, Bool.and_eq_true, decide_eq_true_eq] at hw
      exact hw.1
    rw [rewriteOutboundTag, NamedConnection.tag, trimSpace_trimSpace, ← NamedConnection.tag, he,
      if_pos ht] at hk
    exact hk
  · exact Fields.map_map (rewriteRootField_twice h.rewrite_twice) raw
  · rw [rewriteOutboundTag, heq, h.lookup hc hne, if_pos hne]

/-- The name of the second connection is the tag of the first: a reference to the key of the first
becomes its tag, and then the tag of the second. -/
theorem renamed_reference_moves :
    let tagMap := remoteConnectionTagMap [{ outboundTag := ['a'], sourceKey := ['x'] },
      { outboundTag := ['b'], name := ['a'] }]
    rewriteOutboundTag tagMap ['x'] = ['a'] ∧ rewriteOutboundTag tagMap ['a'] = ['b'] := by
  decide

end Solovey.RemoteOutbound
