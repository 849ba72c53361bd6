import Solovey.Network.Accepted

/-!
# Rendered tables pass the broker's check

A table of accepted lines passes the whole check: its digest and its marker are its own, no
forbidden token has room in it, and the scope opens and closes once. What is rendered for a compiled
plan is such a table, unless it is too large or an element carries a date.
-/

namespace Solovey.Network

open Solovey.Text Solovey.Net Solovey.Hash
open List hiding contains set

/-! ## Whole candidates -/

theorem checkLines_ok {rv : Str} {rs : List Str} (h : ∀ raw ∈ rs, checkLine rv raw = .ok ()) :
    checkLines rv rs = .ok () := by
  induction rs with
  | nil => rfl
  | cons raw rs ih =>
    rw [checkLines, h raw mem_cons_self]
    exact ih fun raw hr => h raw (mem_cons_of_mem _ hr)

section

variable {r : Str} {inner : List Line}

/-- The table's line, the lines inside and the closing brace. -/
def candidateLines (inner : List Line) : List Str :=
  tableLine :: (inner.map Line.text ++ ["\x7d".toList])

def candidateText (inner : List Line) : Str := (candidateLines inner).flatMap (· ++ ['\n'])

variable (hinner : ∀ line ∈ inner, line.Accepted r)
include hinner

theorem candidateLines_forall {p : Str → Prop} (ht : p tableLine) (hc : p ['}'])
    (h : ∀ line ∈ inner, line.Accepted r → p line.text) :
    ∀ raw ∈ candidateLines inner, p raw := by
  intro raw hr
  simp only [candidateLines, mem_cons, mem_append, mem_map, not_mem_nil, or_false] at hr
  rcases hr with rfl | ⟨line, hl, rfl⟩ | rfl
  · exact ht
  · exact h line hl (hinner line hl)
  · exact hc

theorem candidateText_splitOn : (candidateText inner).splitOn '\n' = candidateLines inner ++ [[]] :=
  splitOn_lines (candidateLines_forall hinner (by decide) (by decide +kernel)
    fun _ _ h => h.newline)

theorem candidateText_lower : toLower (candidateText inner) = candidateText inner := by
  have hch : ∀ raw ∈ candidateLines inner, ∀ c ∈ raw, c.toLower = c := by
    refine candidateLines_forall hinner ?_ ?_ fun _ _ h c hc => h.lower hc
    · have ha : (tableLine.all fun c => c.toLower == c) = true := by decide
      exact fun c hc => eq_of_beq (all_eq_true.mp ha c hc)
    · have ha : (['}'].all fun c => c.toLower == c) = true := by decide
      exact fun c hc => eq_of_beq (all_eq_true.mp ha c hc)
  rw [toLower]
  conv_rhs => rw [← List.map_id (candidateText inner)]
  refine map_congr_left fun c hc => ?_
  obtain ⟨raw, hr, hc⟩ := mem_flatMap.mp hc
  rcases mem_append.mp hc with hc | hc
  · exact hch raw hr c hc
  · rw [mem_singleton.mp hc]
    rfl

/-- Past the table's own line no forbidden token has room. -/
theorem candidateText_forbidden :
    forbiddenTokens.find? (contains · (candidateText inner)) = none := by
  rw [find?_eq_none]
  intro token ht hcn
  have hf : ∀ token ∈ forbiddenTokens, contains token tableLine = false ∧ '\n' ∉ token ∧
      token ≠ [] ∧ contains token ['}'] = false ∧
      ∃ rt ∈ forbiddenRoots, contains rt token = true := by decide
  have hrt : ∀ rt ∈ forbiddenRoots, ' ' ∉ rt ∧ rt ≠ [] ∧ contains rt ['{'] = false ∧
      contains rt ['}'] = false := by decide
  obtain ⟨htb, hn, hne, hc, rt, hro, hp⟩ := hf token ht
  obtain ⟨hb, hr, ho, hcl⟩ := hrt rt hro
  obtain ⟨raw, hrw, hin⟩ := infix_lines hn hne (contains_iff.mp hcn)
  refine candidateLines_forall (p := fun raw => ¬token <:+: raw) hinner ?_ ?_
    (fun line _ ha hin => ?_) raw hrw hin
  · intro hin
    rw [contains_iff.mpr hin] at htb
    cases htb
  · intro hin
    rw [contains_iff.mpr hin] at hc
    cases hc
  · have hr' : rt <:+: line.text := (contains_iff.mp hp).trans hin
    rcases infix_indented hb line.indent hr' with hin | hnl
    · obtain ⟨w, hw, hin⟩ := infix_unwords hb hr hin
      rcases braced_cases (ha.braced w hw) with htd | rfl | rfl
      · exact (tidy_iff.mp htd).2.2 rt hro hin
      · rw [contains_iff.mpr hin] at ho
        cases ho
      · rw [contains_iff.mpr hin] at hcl
        cases hcl
    · exact hr hnl

theorem candidateText_scope (hb : Balanced inner) :
    validateManagedScope (candidateText inner) false = .ok () := by
  have hf : scopeLine false ⟨false, 0, 0⟩ tableLine = .ok ⟨true, 1, 1⟩ := by rfl
  have hl : scopeLine false ⟨true, 1, 1⟩ ['}'] = .ok ⟨true, 0, 1⟩ := by rfl
  have he : scopeLine false ⟨true, 0, 1⟩ [] = .ok ⟨true, 0, 1⟩ := by rfl
  have hfl : (candidateLines inner ++ [[]]).foldlM (scopeLine false) ⟨false, 0, 0⟩ =
      .ok ⟨true, 0, 1⟩ := by
    rw [candidateLines, cons_append, foldlM_cons, hf]
    show ((inner.map Line.text ++ [['}']]) ++ [[]]).foldlM (scopeLine false) ⟨true, 1, 1⟩ = _
    rw [append_assoc, foldlM_append, hb ⟨true, 1, 1⟩ (by decide)]
    show ([['}']] ++ [[]]).foldlM (scopeLine false) ⟨true, 1, 1⟩ = _
    rw [singleton_append, foldlM_cons, hl]
    show [[]].foldlM (scopeLine false) ⟨true, 0, 1⟩ = _
    rw [foldlM_cons, he]
    rfl
  simp only [validateManagedScope, candidateText_lower hinner, candidateText_forbidden hinner,
    candidateText_splitOn hinner, hfl]
  rfl

theorem candidateText_check : checkLines r ((candidateText inner).splitOn '\n') = .ok () := by
  rw [candidateText_splitOn hinner]
  refine checkLines_ok fun raw hr => ?_
  rcases mem_append.mp hr with hr | hr
  · exact candidateLines_forall (p := fun raw => checkLine r raw = .ok ()) hinner (by rfl)
      (by rfl) (fun _ _ h => h.check) raw hr
  · rw [mem_singleton.mp hr]
    rfl

end

/-! ## Rendered candidates -/

/-- The lines inside a managed table. -/
def Table.inner (revision : Str) (table : Table) : List Line :=
  ⟨2, ["comment".toList, revisionWord revision]⟩ :: (table.sets.flatMap SetDecl.lines ++
    (⟨2, ["chain".toList, "solovey_input".toList] ++ ["\x7b".toList]⟩ ::
      (⟨4, ["type".toList, "filter".toList, "hook".toList, "input".toList, "priority".toList,
        "-5;".toList, "policy".toList, "accept;".toList]⟩ ::
        table.input.map (fun rule => ⟨4, rule.words⟩)) ++ [⟨2, ["\x7d".toList]⟩]) ++
    table.chains.flatMap Chain.lines)

theorem Table.text_eq {t : Table} {rv : Str} (h : t.revision = some rv) :
    t.text = candidateText (t.inner rv) := by
  have hl : t.lines.map Line.text = candidateLines (t.inner rv) := by
    simp only [Table.lines, h, candidateLines, Table.inner, Option.toList_some, map_append,
      map_cons, map_nil, cons_append, nil_append, append_assoc]
    rfl
  rw [candidateText, ← hl, flatMap_map]
  rfl

theorem unwords_comment (rv : Str) :
    unwords ["comment".toList, revisionWord rv] = revisionMarker rv := by
  have ho : unwords [revisionWord rv] = revisionWord rv := by simp [unwords, List.intercalate]
  have ht := unwords_cons (w := "comment".toList) (cons_ne_nil (revisionWord rv) [])
  exact ht.trans (congrArg (fun w => "comment".toList ++ ' ' :: w) ho)

theorem flat_comment {rv : Str} (h : digest rv = true) :
    (Line.mk 2 ["comment".toList, revisionWord rv]).Flat rv := by
  have ht : ∀ w ∈ ["comment".toList, revisionWord rv], tidy w = true :=
    tidy_pair (by decide) (tidy_revisionWord h)
  refine ⟨Line.accepted_of_generated (by simp) (fun w hw => braced_of_tidy (ht w hw)) (by simp) ?_,
    opened_tidy ht⟩
  simp only [unwords_comment, generatedLine, BEq.rfl, Bool.or_true, Bool.true_or]

section

variable {p : ProtectionEnforcementIntent} (hplan : Compiled p)
include hplan

theorem Compiled.inner_accepted {a : Option ℤ} (hat : Undated p a)
    (hd : ∀ e ∈ p.managementExemptions,
      e.recoveryPathID ≠ trustedSource → e.expiresAt ≤ 253402300799) :
    (∀ line ∈ (renderEndpointManaged p true a).inner p.artifactRevision,
      line.Accepted p.artifactRevision) ∧
    Balanced ((renderEndpointManaged p true a).inner p.artifactRevision) := by
  have hcm := flat_comment hplan.artifactRevision
  have hs : ∀ set ∈ (renderEndpointManaged p true a).sets,
      (∀ line ∈ set.lines, line.Accepted p.artifactRevision) ∧ Balanced set.lines := by
    intro set hs
    obtain ⟨endpoint, hm, hs⟩ := mem_flatMap.mp hs
    exact (hplan.set_printable hm hat hs).lines
  have hc : ∀ chain ∈ (renderEndpointManaged p true a).chains,
      (∀ line ∈ chain.lines, line.Accepted p.artifactRevision) ∧ Balanced chain.lines := by
    intro chain hc
    obtain ⟨endpoint, hm, rfl⟩ := mem_map.mp hc
    obtain ⟨hn, ht⟩ := endpointChainName_known (hplan.endpoints endpoint hm).revision
    exact Chain.lines_accepted hn ht fun rl hrl => hplan.rule_printable hm hrl
  have hfr : ∀ w ∈ ["chain".toList, "solovey_input".toList], tidy w = true :=
    all_eq_true.mp (by decide)
  have hf : (Line.mk 2 (["chain".toList, "solovey_input".toList] ++ ["\x7b".toList])).Accepted
      p.artifactRevision :=
    accepted_pattern (by simp) (all_eq_true.mp (by decide)) (by simp)
      (.inr (.inl (by decide)))
  have hr : ∀ line ∈ ⟨4, ["type".toList, "filter".toList, "hook".toList, "input".toList,
      "priority".toList, "-5;".toList, "policy".toList, "accept;".toList]⟩ ::
        (renderEndpointManaged p true a).input.map (fun rl => Line.mk 4 rl.words),
      line.Flat p.artifactRevision := by
    intro line hl
    rcases mem_cons.mp hl with rfl | hl
    · exact flat_fixed (by decide) (by decide +kernel)
    · obtain ⟨rl, hrl, rfl⟩ := mem_map.mp hl
      exact hplan.input_flat hd hrl
  obtain ⟨hi, hin⟩ := block_accepted hfr hf hr
  constructor
  · intro line hl
    rcases mem_cons.mp hl with rfl | hl
    · exact hcm.toAccepted
    rcases mem_append.mp hl with hl | hl
    · rcases mem_append.mp hl with hl | hl
      · obtain ⟨set, hm, hl⟩ := mem_flatMap.mp hl
        exact (hs set hm).1 line hl
      · exact hi line hl
    · obtain ⟨chain, hm, hl⟩ := mem_flatMap.mp hl
      exact (hc chain hm).1 line hl
  · have hfi : Balanced [⟨2, ["comment".toList, revisionWord p.artifactRevision]⟩] :=
      balanced_of_flat fun line hl => by rw [mem_singleton.mp hl]; exact hcm
    exact hfi.append (((balanced_flatMap fun set hm => (hs set hm).2).append
      hin).append (balanced_flatMap fun chain hm => (hc chain hm).2))

end

/-! ## The check of a rendering -/

/-- What an accepted candidate has passed. -/
theorem validateCandidate_ok {d rv es : Str} (h : validateCandidate d rv es = .ok ()) :
    utf8Len d ≤ maxManagedCandidateBytes ∧ checkLines rv (d.splitOn '\n') = .ok () := by
  simp only [validateCandidate] at h
  split at h
  · cases h
  next hs =>
  split at h
  · cases h
  split at h
  · cases h
  split at h
  · cases h
  · exact ⟨by omega, h⟩

theorem candidate_accepted {rv : Str} {inner : List Line}
    (hinner : ∀ line ∈ inner, line.Accepted rv) (hb : Balanced inner)
    (hm : ⟨2, ["comment".toList, revisionWord rv]⟩ ∈ inner)
    (hs : utf8Len (candidateText inner) ≤ maxManagedCandidateBytes) :
    checkProtectionCandidate (candidateText inner) rv
      (hexDigest (encodeUtf8 (candidateText inner))) = .ok () := by
  have hne : candidateText inner ≠ [] := by simp [candidateText, candidateLines]
  have hc : contains (revisionMarker rv) (candidateText inner) = true := by
    have hln : List.replicate 2 ' ' ++ unwords ["comment".toList, revisionWord rv] ++
        ['\n'] ∈ (candidateLines inner).map (· ++ ['\n']) :=
      mem_map_of_mem (mem_cons_of_mem _ (mem_append_left _ (mem_map_of_mem (f := Line.text) hm)))
    have hi := infix_of_mem_flatten hln
    rw [unwords_comment, ← flatMap_def] at hi
    exact contains_iff.mpr (List.IsInfix.trans ⟨List.replicate 2 ' ', ['\n'], rfl⟩ hi)
  have hg : ¬(candidateText inner = [] ∨
      maxManagedCandidateBytes < utf8Len (candidateText inner)) := by
    rintro (hn | hl)
    · exact hne hn
    · exact absurd hs (Nat.not_le.mpr hl)
  simp only [checkProtectionCandidate, validateCandidate, if_neg hg, ne_eq, not_true, if_false,
    hc, Bool.not_true, Bool.false_eq_true, candidateText_scope hinner hb,
    candidateText_check hinner]

/-- The broker accepts what the program renders for an accepted endpoint-mode plan, up to the size
of an artifact, when no element is dated. -/
theorem rendering_accepted {sourceRevision : TimedSource → Str}
    {intent plan : ProtectionEnforcementIntent} {facts : Facts}
    (hcompile : compileProtection sourceRevision intent facts = .ok plan)
    (hmode : intent.mode = .endpointManaged)
    (hdeadlines : ∀ exemption ∈ plan.managementExemptions,
      exemption.recoveryPathID ≠ trustedSource → exemption.expiresAt ≤ 253402300799)
    {at_ : Option ℤ} (hat : Undated plan at_)
    (hsize : utf8Len (renderProtection sourceRevision intent true at_).text ≤
      maxManagedCandidateBytes) :
    checkProtectionCandidate (renderProtection sourceRevision intent true at_).text
      plan.artifactRevision
      (hexDigest (encodeUtf8 (renderProtection sourceRevision intent true at_).text)) = .ok () := by
  obtain ⟨hc, hplan⟩ := compileProtection_ok hcompile hmode
  rw [renderProtection, ← hc] at hsize ⊢
  have hr : (renderEndpointManaged plan true at_).revision = some plan.artifactRevision := rfl
  obtain ⟨hinner, hb⟩ := hplan.inner_accepted hat hdeadlines
  rw [Table.text_eq hr] at hsize ⊢
  exact candidate_accepted hinner hb mem_cons_self hsize

theorem rendering_accepted_sample :
    checkProtectionCandidate (renderProtection (fun _ => [])
        (Sample.intent [Sample.wildcard, Sample.exact]) true none).text (Sample.revision 'd')
      (hexDigest (encodeUtf8 (renderProtection (fun _ => [])
        (Sample.intent [Sample.wildcard, Sample.exact]) true none).text)) = .ok () :=
  rendering_accepted Sample.compile_both rfl (by decide) (.inl rfl) (by decide +kernel)

/-! ## What is not accepted -/

namespace Sample

/-- As many exemptions as the planner lets through. -/
def crowded : ProtectionEnforcementIntent :=
  { intent [] with managementExemptions := List.replicate 4096 operator }

theorem canonical_crowded : canonicalProtection (fun _ => []) crowded = crowded := by
  have hs : sortBy ProtectionExemption.sortKey (List.replicate 4096 operator) =
      List.replicate 4096 operator :=
    perm_replicate.mp (perm_insertionSort _ _)
  have he : crowded.endpoints = [] := rfl
  simp only [canonicalProtection, he]
  rw [show crowded.managementExemptions = List.replicate 4096 operator from rfl, hs]
  rfl

theorem compile_crowded : compileProtection (fun _ => []) crowded facts = .ok crowded := by
  have he : crowded.managementExemptions.all validExemption = true := by
    rw [all_eq_true]
    intro e hm
    rw [eq_of_mem_replicate hm]
    decide
  have hln : crowded.managementExemptions.length = 4096 := length_replicate
  have hd : digest crowded.artifactRevision = true := by decide
  have hf : ¬((!digest crowded.artifactRevision) = true ∨
      crowded.binding.resourceRef ≠ protectionResourceRef ∨ 4096 < crowded.endpoints.length ∨
      4096 < crowded.managementExemptions.length ∨ crowded.mode = .other) := by
    rw [hd, hln]
    rintro (h | h | h | h | h)
    · cases h
    · exact h rfl
    · cases h
    · exact absurd h (by decide)
    · cases h
  have hl : ¬(crowded.mode = .endpointManaged ∧
      (!validLimits crowded.limits crowded.rates) = true) := by
    rintro ⟨-, h⟩
    cases h
  have hep : checkEndpoints crowded.limits crowded.endpoints [] = .ok () := rfl
  have hc : compile crowded.binding (crowded.endpoints.map ProtectionEndpoint.binding) facts =
      .ok () := by decide
  simp only [compileProtection, canonical_crowded, if_neg hf, if_neg hl, hep, he, hc]
  rfl

theorem crowded_large : maxManagedCandidateBytes <
    utf8Len (renderProtection (fun _ => []) crowded true none).text := by
  have hf : ((exemptionRule operator).any fun rl =>
      decide (64 ≤ (Line.mk 4 rl.words).text.length)) = true := by decide +kernel
  obtain ⟨rl, hrl, hln⟩ := (Option.any_eq_true _ _).mp hf
  have hi : (List.replicate 4096 (Line.mk 4 rl.words)).Sublist
      ((renderEndpointManaged crowded true none).input.map fun rl => Line.mk 4 rl.words) := by
    have hr : crowded.managementExemptions.filterMap exemptionRule =
        List.replicate 4096 rl := filterMap_replicate_of_some hrl
    simp only [renderEndpointManaged, hr, map_append, map_replicate, append_assoc]
    exact sublist_append_left _ _
  have hl : (List.replicate 4096 (Line.mk 4 rl.words)).Sublist
      (renderEndpointManaged crowded true none).lines :=
    (((hi.trans (sublist_append_right _ _)).trans (sublist_append_left _ _)).trans
      (sublist_append_left _ _)).trans (sublist_append_left _ _)
  have ht := (hl.flatMap fun line : Line => line.text ++ ['\n']).length_le
  rw [length_flatMap, map_replicate, sum_replicate, length_append, smul_eq_mul] at ht
  have hb := length_le_utf8Len (renderEndpointManaged crowded true none).text
  rw [renderProtection, canonical_crowded]
  rw [Table.text] at hb ⊢
  simp only [decide_eq_true_eq, length_singleton, maxManagedCandidateBytes] at *
  omega

end Sample

/-- An accepted plan whose rendering is larger than an artifact may be, and one with an element that
is still alive at the time of the rendering. -/
theorem rendering_rejected :
    (compileProtection (fun _ => []) Sample.crowded Sample.facts = .ok Sample.crowded ∧
      ∀ sha, checkProtectionCandidate (renderProtection (fun _ => []) Sample.crowded true none).text
        (Sample.revision 'd') sha ≠ .ok ()) ∧
    compileProtection (fun _ => []) (Sample.intent [Sample.exact]) Sample.facts =
        .ok (Sample.intent [Sample.exact]) ∧
      ∀ sha, checkProtectionCandidate (renderProtection (fun _ => [])
        (Sample.intent [Sample.exact]) true (some 1900000000000000000)).text
        (Sample.revision 'd') sha ≠ .ok () := by
  refine ⟨⟨Sample.compile_crowded, fun sha h => ?_⟩, Sample.compile_exact, fun sha h => ?_⟩
  · exact absurd (validateCandidate_ok h).1 (Nat.not_le.mpr Sample.crowded_large)
  · have hl : checkLines (Sample.revision 'd') ((renderProtection (fun _ => [])
        (Sample.intent [Sample.exact]) true (some 1900000000000000000)).text.splitOn '\n') ≠
        .ok () := by decide
    exact hl (validateCandidate_ok h).2

end Solovey.Network
