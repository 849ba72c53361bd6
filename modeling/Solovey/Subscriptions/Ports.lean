import Solovey.Data.LastEvent
import Solovey.Text.Strings

/-!
# Hysteria port lists

The server ports of a Hysteria outbound are single ports, ranges and open-ended ranges. A list is
kept in the colon notation of the core; a share link joins the ports with commas, and writes a range
of one port as that port.
-/

namespace Solovey.Subscriptions

open Solovey.Text Solovey.Data List

/-- A port of a list, as JSON has it; a number is a `float64`. -/
inductive Item
  | str (s : Str)
  | float (x : ℚ)
  | notFinite
  | int (n : ℤ)
  | other

inductive Value
  | null
  | str (s : Str)
  | strs (l : List Str)
  | items (l : List Item)
  | other

def Item.text : Item → Except Str Str
  | .str s => .ok s
  | .float x =>
    if x.den ≠ 1 ∨ x < 1 ∨ 65535 < x then .error "invalid Hysteria port".toList
    else .ok (integer x.num)
  | .notFinite => .error "invalid Hysteria port".toList
  | .int n => .ok (integer n)
  | .other => .error "invalid Hysteria port segment".toList

def boundedPort (text : Str) : Except Str ℕ :=
  if text = [] then .error "empty Hysteria port segment".toList
  else match readDecimal text with
    | none => .error "invalid Hysteria port segment".toList
    | some port =>
      if port < 1 ∨ 65535 < port then .error "hysteria port outside 1..65535".toList
      else .ok port

/-- The end of an open range stays empty. -/
def colonRange (startText endText : Str) : Except Str Str :=
  boundedPort startText >>= fun start =>
    (if endText = [] then .ok 65535 else boundedPort endText) >>= fun last =>
      if last < start then .error "reversed Hysteria port range".toList
      else .ok (decimal start ++ ':' :: if endText = [] then [] else decimal last)

/-- A text without a colon is a range of one port. -/
def portRange (text : Str) : Except Str Str :=
  match text.dropWhile (· ≠ ':') with
  | [] => colonRange text text
  | _ :: endText => colonRange (text.takeWhile (· ≠ ':')) endText

def portRanges (items : List Item) : Except Str (List Str) :=
  if 64 < items.length then .error "hysteria server_ports exceeds 64 segments".toList
  else items.mapM fun item => item.text >>= portRange

def hysteriaPorts : Value → Except Str (List Str)
  | .null => .ok []
  | .str s => if s = [] then .ok [] else portRanges [.str s]
  | .strs l => portRanges (l.map .str)
  | .items l => portRanges l
  | .other => .error "invalid Hysteria server_ports shape".toList

def sharePort (port : Str) : Str :=
  if port.takeWhile (· ≠ ':') = (port.dropWhile (· ≠ ':')).drop 1 then port.takeWhile (· ≠ ':')
  else port

def hysteriaSharePorts (value : Value) : Except Str Str :=
  (hysteriaPorts value).map fun ports => [','].intercalate (ports.map sharePort)

def parseHysteriaSharePorts (value : Str) : Except Str (List Str) :=
  if value = [] then .ok []
  else hysteriaPorts (.strs ((value.splitOn ',').map fun segment =>
    segment.map fun c => if c = '-' then ':' else c))

/-! ## One port -/

variable {n a b : ℕ} {tx p : Str}

theorem boundedPort_ok (h : boundedPort tx = .ok n) : 1 ≤ n ∧ n ≤ 65535 := by
  unfold boundedPort at h
  split at h
  · cases h
  split at h
  · cases h
  split at h
  · cases h
  next hn =>
    cases h
    omega

theorem boundedPort_decimal (hn : 1 ≤ n ∧ n ≤ 65535) : boundedPort (decimal n) = .ok n := by
  rw [boundedPort, if_neg (decimal_ne_nil n), readDecimal_decimal]
  exact if_neg (by omega)

theorem takeWhile_decimal (r : Str) : (decimal a ++ ':' :: r).takeWhile (· ≠ ':') = decimal a := by
  rw [takeWhile_append_of_pos]
  · simp
  · intro c hc
    simpa using ne_of_mem_decimal hc (by decide)

theorem dropWhile_decimal (r : Str) : (decimal a ++ r).dropWhile (· ≠ ':') =
    r.dropWhile (· ≠ ':') := by
  refine dropWhile_append_of_pos fun c hc => ?_
  simpa using ne_of_mem_decimal hc (by decide)

/-- A range in the notation of the core. -/
def Normal (p : Str) : Prop :=
  ∃ a b : ℕ, (1 ≤ a ∧ a ≤ 65535) ∧ (1 ≤ b ∧ b ≤ 65535) ∧ a ≤ b ∧
    ∃ e, (e = decimal b ∨ e = [] ∧ b = 65535) ∧ p = decimal a ++ ':' :: e

theorem normal_colonRange {t : Str} (h : colonRange t tx = .ok p) : Normal p := by
  obtain ⟨a, ha, h⟩ := bind_ok.mp h
  obtain ⟨b, hb, h⟩ := bind_ok.mp h
  split at h
  · cases h
  next hlt =>
    cases h
    split at hb
    next he =>
      cases hb
      exact ⟨a, 65535, boundedPort_ok ha, by decide, not_lt.mp hlt, [], .inr ⟨rfl, rfl⟩, by simp [he]⟩
    next he =>
      exact ⟨a, b, boundedPort_ok ha, boundedPort_ok hb, not_lt.mp hlt, _, .inl rfl, by simp [he]⟩

theorem normal_portRange (h : portRange tx = .ok p) : Normal p := by
  unfold portRange at h
  split at h <;> exact normal_colonRange h

theorem colonRange_decimal {e : Str} (ha : 1 ≤ a ∧ a ≤ 65535) (hb : 1 ≤ b ∧ b ≤ 65535) (hab : a ≤ b)
    (he : e = decimal b ∨ e = [] ∧ b = 65535) :
    colonRange (decimal a) e = .ok (decimal a ++ ':' :: e) := by
  refine bind_ok.mpr ⟨a, boundedPort_decimal ha, bind_ok.mpr ⟨b, ?_, ?_⟩⟩
  · rcases he with rfl | ⟨rfl, rfl⟩
    · rw [if_neg (decimal_ne_nil b), boundedPort_decimal hb]
    · rfl
  · rw [if_neg (not_lt.mpr hab)]
    rcases he with rfl | ⟨rfl, rfl⟩
    · rw [if_neg (decimal_ne_nil b)]
    · rfl

theorem portRange_single (ha : 1 ≤ a ∧ a ≤ 65535) :
    portRange (decimal a) = .ok (decimal a ++ ':' :: decimal a) := by
  have hd := dropWhile_decimal (a := a) []
  rw [append_nil] at hd
  rw [portRange, hd]
  exact colonRange_decimal ha ha le_rfl (.inl rfl)

theorem Normal.portRange_eq (h : Normal p) : portRange p = .ok p := by
  obtain ⟨a, b, ha, hb, hab, e, he, rfl⟩ := h
  rw [portRange, dropWhile_decimal, takeWhile_decimal]
  exact colonRange_decimal ha hb hab he

/-- A share link holds a range as it is, or the one port of the range. -/
theorem Normal.share (h : Normal p) : portRange (sharePort p) = .ok p ∧ sharePort p ≠ [] ∧
    ∀ c ∈ sharePort p, c.isDigit = true ∨ c = ':' := by
  have hr := h.portRange_eq
  obtain ⟨a, b, ha, -, -, e, he, rfl⟩ := h
  have hd : (decimal a ++ ':' :: e).dropWhile (· ≠ ':') = ':' :: e := dropWhile_decimal _
  rw [sharePort, takeWhile_decimal, hd, drop_one, tail_cons]
  split
  next hae =>
    rw [← hae]
    exact ⟨portRange_single ha, decimal_ne_nil a, fun c hc => .inl (digit_of_mem_decimal hc)⟩
  · refine ⟨hr, by simp, fun c hc => ?_⟩
    rcases mem_append.mp hc with hc | hc
    · exact .inl (digit_of_mem_decimal hc)
    · rcases he with rfl | ⟨rfl, -⟩
      · exact (mem_cons.mp hc).symm.imp_left digit_of_mem_decimal
      · exact .inr (mem_singleton.mp hc)

/-! ## Lists of ports -/

theorem mapM_normal {it : List Item} {pr : List Str}
    (h : (it.mapM fun item => item.text >>= portRange) = .ok pr) :
    pr.length = it.length ∧ ∀ p ∈ pr, Normal p := by
  induction it generalizing pr with
  | nil =>
    cases h
    exact ⟨rfl, nofun⟩
  | cons item it ih =>
    rw [mapM_cons] at h
    obtain ⟨p, hp, h⟩ := bind_ok.mp h
    obtain ⟨ps, hps, h⟩ := bind_ok.mp h
    cases h
    obtain ⟨tx, -, hp⟩ := bind_ok.mp hp
    obtain ⟨hl, hn⟩ := ih hps
    exact ⟨by simp [hl], forall_mem_cons.mpr ⟨normal_portRange hp, hn⟩⟩

/-- Texts that stand for the given ports. -/
theorem hysteriaPorts_map {ps : List Str} {f : Str → Str} (hl : ps.length ≤ 64)
    (h : ∀ p ∈ ps, portRange (f p) = .ok p) : hysteriaPorts (.strs (ps.map f)) = .ok ps := by
  rw [hysteriaPorts, portRanges, if_neg (by simpa using hl)]
  clear hl
  induction ps with
  | nil => rfl
  | cons p ps ih =>
    obtain ⟨hp, h⟩ := forall_mem_cons.mp h
    rw [map_cons, map_cons, mapM_cons]
    exact bind_ok.mpr ⟨p, bind_ok.mpr ⟨f p, rfl, hp⟩, bind_ok.mpr ⟨ps, ih h, rfl⟩⟩

theorem normal_hysteriaPorts {v : Value} {ps : List Str} (h : hysteriaPorts v = .ok ps) :
    ps.length ≤ 64 ∧ ∀ p ∈ ps, Normal p := by
  have hn : ∀ {items}, portRanges items = .ok ps → ps.length ≤ 64 ∧ ∀ p ∈ ps, Normal p := by
    intro items h
    unfold portRanges at h
    split at h
    · cases h
    next hlt =>
      obtain ⟨hl, hn⟩ := mapM_normal h
      exact ⟨by omega, hn⟩
  cases v with
  | null =>
    cases h
    exact ⟨by decide, nofun⟩
  | str s =>
    rw [hysteriaPorts] at h
    split at h
    · cases h
      exact ⟨by decide, nofun⟩
    · exact hn h
  | strs l | items l => exact hn h
  | other => cases h

/-- A port list that is accepted comes back from its share link, and is its own normal form. -/
theorem hysteria_ports_round_trip {v : Value} {ps : List Str}
    (h : hysteriaPorts v = .ok ps) :
    (∃ share, hysteriaSharePorts v = .ok share ∧
      parseHysteriaSharePorts share = .ok ps) ∧
    hysteriaPorts (.strs ps) = .ok ps := by
  obtain ⟨hl, hn⟩ := normal_hysteriaPorts h
  refine ⟨⟨_, map_ok.mpr ⟨ps, h, rfl⟩, ?_⟩, ?_⟩
  · cases ps with
    | nil => rfl
    | cons p ps =>
      have hs : ∀ t ∈ (p :: ps).map sharePort, ∀ c ∈ t, c.isDigit = true ∨ c = ':' := by
        intro t ht
        obtain ⟨q, hq, rfl⟩ := mem_map.mp ht
        exact (hn q hq).share.2.2
      rw [parseHysteriaSharePorts, if_neg, splitOn_intercalate, map_map]
      · refine hysteriaPorts_map hl fun q hq => ?_
        -- a port has no hyphen that could be replaced
        have hm : (sharePort q).map (fun c => if c = '-' then ':' else c) = sharePort q := by
          refine (map_congr_left fun c hc => if_neg ?_).trans (map_id _)
          rintro rfl
          exact absurd (hs _ (mem_map_of_mem hq) _ hc) (by decide)
        rw [Function.comp_apply, hm]
        exact (hn q hq).share.1
      · intro t ht hc
        exact absurd (hs t ht ',' hc) (by decide)
      · simp
      · have hp := (hn p mem_cons_self).share.2.1
        cases ps <;> simp [intercalate, hp]
  · have hp := hysteriaPorts_map (f := id) hl fun q hq => (hn q hq).portRange_eq
    rwa [map_id] at hp

theorem hysteria_ports_round_trip_mixed :
    hysteriaPorts (.items [.int 80, .str "20:".toList, .str "5:9".toList]) =
        .ok ["80:80".toList, "20:".toList, "5:9".toList] ∧
      parseHysteriaSharePorts "80,20:,5:9".toList =
        .ok ["80:80".toList, "20:".toList, "5:9".toList] := by
  have h : hysteriaPorts (.items [.int 80, .str "20:".toList, .str "5:9".toList]) =
      .ok ["80:80".toList, "20:".toList, "5:9".toList] := by decide
  obtain ⟨⟨share, hs, hp⟩, -⟩ := hysteria_ports_round_trip h
  cases hs
  exact ⟨h, hp⟩

end Solovey.Subscriptions
