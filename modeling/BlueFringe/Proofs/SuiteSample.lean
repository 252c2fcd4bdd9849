import BlueFringe.Proofs.Conflicts
import BlueFringe.Proofs.Conformance
import BlueFringe.Proofs.Hypotheses
import Mathlib.Data.Finset.Max

/-!
# Samples of conformance suites

A sample keeps of every test word what the reference does not reject before its end, and of these
words only those that no other one extends. Nothing is lost by this: the prefixes of the sample are
those of the test words, up to the first rejection, and a graph that agrees with the sample
classifies every test word like the reference.
-/

namespace BlueFringe

open Std

variable {α : Type} [Ord α] [TransOrd α]

namespace Conformance

open BlueFringe.Graph

variable {c : Conformance α} {tests : List (Word α)} {a : α} {v w : Word α}

/-- The reference rejects no proper prefix of the word. -/
def Observable (c : Conformance α) (w : Word α) : Prop :=
  ∀ v, v <+: w → v ≠ w → c.reference.accepts v = true

theorem observable_of_accepts (accepted : c.reference.accepts w = true) : c.Observable w := by
  rintro v ⟨u, rfl⟩ _
  exact acceptsFrom_of_append accepted

theorem observable_concat : c.Observable (w ++ [a]) ↔ c.reference.accepts w = true := by
  constructor
  · exact fun observable => observable w (List.prefix_append w [a]) (by simp)
  · intro accepted v first ne
    obtain ⟨u, rfl⟩ := (List.prefix_concat_iff.mp first).resolve_left ne
    exact acceptsFrom_of_append accepted

theorem prefix_truncate_iff : v <+: c.truncate w ↔ v <+: w ∧ c.Observable v :=
  prefix_truncateFrom_iff

theorem truncate_eq_or_rejected (c : Conformance α) (w : Word α) :
    c.truncate w = w ∨ c.reference.accepts (c.truncate w) = false := by
  obtain ⟨u, split⟩ := (prefix_truncate_iff.mp (List.prefix_refl (c.truncate w))).1
  cases u with
  | nil => exact .inl (by simpa using split)
  | cons a u =>
      refine .inr (Bool.not_eq_true _ ▸ fun accepted => ?_)
      -- If it were accepted, one more label could be read.
      have longer : c.truncate w ++ [a] <+: c.truncate w :=
        prefix_truncate_iff.mpr ⟨⟨u, by simpa using split⟩, observable_concat.mpr accepted⟩
      simpa using longer.length_le

/-! ### The words of the sample -/

/-- The truncated test words that none of them extends. -/
def maximal (c : Conformance α) (tests : List (Word α)) : List (Word α) :=
  let words := Word.arrange (tests.map c.truncate)
  words.filter fun v => !words.any (isExtendedBy v)

variable [LawfulEqOrd α]

omit [TransOrd α] in
theorem isExtendedBy_iff : isExtendedBy v w = true ↔ v <+: w ∧ v ≠ w := by
  rw [isExtendedBy, Bool.and_eq_true, decide_eq_true_iff, beq_iff_eq,
    LawfulEqOrd.compare_eq_iff_eq]
  constructor
  · rintro ⟨shorter, same⟩
    exact ⟨same ▸ List.take_prefix v.length w, fun he => (he ▸ shorter).false⟩
  · rintro ⟨first, ne⟩
    refine ⟨Nat.lt_of_not_le fun le => ne (first.eq_of_length_le le), ?_⟩
    exact (List.prefix_iff_eq_take.mp first).symm

theorem mem_maximal : w ∈ c.maximal tests ↔
    (∃ t ∈ tests, c.truncate t = w) ∧ ∀ t ∈ tests, w <+: c.truncate t → w = c.truncate t := by
  rw [maximal, List.mem_filter, Word.mem_arrange, List.mem_map, Bool.not_eq_true',
    List.any_eq_false]
  refine and_congr_right fun _ => ?_
  simp only [Word.mem_arrange, List.forall_mem_map, isExtendedBy_iff, not_and, not_not]

theorem nodup_maximal : (c.maximal tests).Nodup := by
  refine List.Nodup.filter _ (List.Pairwise.imp (fun {v w} lt => ?_) (distinctBy_pairwise _ _))
  rintro rfl
  simp [ReflCmp.compare_self] at lt

theorem exists_maximal {t : Word α} (mem : t ∈ tests) :
    ∃ w ∈ c.maximal tests, c.truncate t <+: w := by
  classical
  let longer := (tests.map c.truncate).toFinset.filter fun w => c.truncate t <+: w
  have mem_longer : ∀ w, w ∈ longer ↔ (∃ t' ∈ tests, c.truncate t' = w) ∧ c.truncate t <+: w := by
    intro w
    rw [Finset.mem_filter, List.mem_toFinset, List.mem_map]
  obtain ⟨w, hw, longest⟩ := longer.exists_max_image List.length
    ⟨_, (mem_longer _).mpr ⟨⟨t, mem, rfl⟩, List.prefix_refl _⟩⟩
  obtain ⟨from', first⟩ := (mem_longer w).mp hw
  refine ⟨w, mem_maximal.mpr ⟨from', fun t' mem' extends' => ?_⟩, first⟩
  exact extends'.eq_of_length_le
    (longest _ ((mem_longer _).mpr ⟨⟨t', mem', rfl⟩, first.trans extends'⟩))

/-- The prefixes of the sample are those of the test words, up to the first rejection. -/
theorem prefix_maximal_iff :
    (∃ w ∈ c.maximal tests, v <+: w) ↔ (∃ t ∈ tests, v <+: t) ∧ c.Observable v := by
  constructor
  · rintro ⟨w, mem, first⟩
    obtain ⟨⟨t, ht, rfl⟩, _⟩ := mem_maximal.mp mem
    obtain ⟨whole, observable⟩ := prefix_truncate_iff.mp first
    exact ⟨⟨t, ht, whole⟩, observable⟩
  · rintro ⟨⟨t, ht, first⟩, observable⟩
    obtain ⟨w, mem, further⟩ := exists_maximal (c := c) ht
    exact ⟨w, mem, (prefix_truncate_iff.mpr ⟨first, observable⟩).trans further⟩

theorem observable_of_mem_maximal (mem : w ∈ c.maximal tests) : c.Observable w :=
  (prefix_maximal_iff.mp ⟨w, mem, List.prefix_refl w⟩).2

/-! ### The traces of the sample -/

/-- The trace of a word as the reference classifies it. -/
def traceOf (c : Conformance α) (w : Word α) : Trace α := ⟨w, .ofBool (c.reference.accepts w)⟩

omit [LawfulEqOrd α] in
theorem exists_sample (made : c.testSet = .ok tests) :
    ∃ sample, c.sample = .ok sample ∧ sample.traces = (c.maximal tests).map c.traceOf := by
  refine ⟨.ofFlagged ((c.maximal tests).map fun w => (w, c.reference.accepts w)), ?_,
    List.map_map ..⟩
  rw [sample, made]
  rfl

omit [LawfulEqOrd α] in
/-- Of each prefix of an observable word the trace says what the reference says. -/
theorem Observable.demandsAt (observable : c.Observable w) (first : v <+: w) :
    (c.traceOf w).DemandsAt v (.ofBool (c.reference.accepts v)) := by
  obtain ⟨u, split⟩ := id first
  refine ⟨u, split, ?_⟩
  cases u with
  | nil => rw [← split, List.append_nil]; rfl
  | cons a u =>
      rw [observable v first fun same => by simp [same] at split]
      rfl

theorem consistent_maximal : Consistent ((c.maximal tests).map c.traceOf) := by
  refine ⟨c.reference.language c.reference.initial, prefixClosed_language, ?_⟩
  rw [List.forall_mem_map]
  exact fun w mem => holdsIn_language (observable_of_mem_maximal mem)

theorem accepts_eq_of_agrees {g : Graph α} {t : Word α}
    (agrees : ∀ w ∈ c.maximal tests, g.Agrees (c.traceOf w)) (mem : t ∈ tests) :
    g.accepts t = c.reference.accepts t := by
  obtain ⟨w, hw, first⟩ := exists_maximal (c := c) mem
  have truncated : g.accepts (c.truncate t) = c.reference.accepts (c.truncate t) := by
    have here := (agrees w hw).of_demandsAt ((observable_of_mem_maximal hw).demandsAt first)
    exact here.accepts_eq.trans (Outcome.isAccept_ofBool _)
  rcases c.truncate_eq_or_rejected t with same | rejected
  · rwa [same] at truncated
  · -- Behind a rejected prefix both sides reject.
    obtain ⟨u, split⟩ := (prefix_truncate_iff.mp (List.prefix_refl (c.truncate t))).1
    have closed : ∀ h : Graph α, h.accepts (c.truncate t) = false → h.accepts t = false := by
      intro h no
      rw [← Bool.not_eq_true] at no ⊢
      refine fun yes => no (acceptsFrom_of_append (w := u) ?_)
      rwa [split]
    rw [closed g (truncated.trans rejected), closed c.reference rejected]

end Conformance

namespace PrefixTree

variable [LawfulEqOrd α]

/-- Consistent traces are all added, whatever becomes of conflicts. -/
theorem Denotes.addAll_of_consistent {t : PrefixTree α} {kept traces : List (Trace α)}
    (denotes : t.Denotes kept) (consistent : Consistent (kept ++ traces)) :
    ∃ t', t.addAll traces = (none, t') ∧ t'.Denotes (kept ++ traces) ∧ t'.skipped = t.skipped := by
  induction traces generalizing t kept with
  | nil => exact ⟨t, rfl, by rwa [List.append_nil], rfl⟩
  | cons trace rest ih =>
      rw [List.append_cons] at consistent ⊢
      obtain ⟨t₁, h⟩ := denotes.consistent_iff.mp
        (consistent.mono (List.subset_append_left _ rest))
      obtain ⟨t', added, denotes', skipped⟩ := ih (denotes.extend h) consistent
      refine ⟨t', ?_, denotes', ?_⟩
      · rw [PrefixTree.addAll, PrefixTree.add, h]
        exact added
      · obtain ⟨q, unread, _, rfl⟩ := extend_eq_ok h
        exact skipped

theorem exists_ofTraces_of_consistent {traces : List (Trace α)} (policy : ConflictPolicy)
    (consistent : Consistent traces) :
    ∃ t, ofTraces policy traces = .ok t ∧ t.Denotes traces ∧ t.skipped = [] := by
  obtain ⟨t, added, denotes, skipped⟩ := (Denotes.empty policy).addAll_of_consistent consistent
  exact ⟨t, by rw [ofTraces, added], denotes, skipped⟩

end PrefixTree

namespace Conformance

open BlueFringe.Graph

variable [LawfulEqOrd α]

/-- If a suite can be made, so can its sample. In the sample no word is a proper prefix of another
one or comes twice. Its traces do not contradict one another; their prefix tree and all hypotheses
of a search for them classify every word of the suite like the reference. -/
theorem sample_loses_nothing (c : Conformance α) (tests : List (Word α))
    (made : c.testSet = .ok tests) :
    ∃ sample : Sample α, c.sample = .ok sample ∧
      (sample.traces.map (·.word)).Nodup ∧
      (∀ s ∈ sample.traces, ∀ s' ∈ sample.traces, s.word <+: s'.word → s.word = s'.word) ∧
      (∃ t, PrefixTree.ofTraces .abort sample.traces = .ok t ∧
        ∀ w ∈ tests, t.graph.accepts w = c.reference.accepts w) ∧
      ∀ {ω₀ : Type} (settings : Settings α) (oracle : ω₀),
        ∃ start, Learner.ofSample sample settings oracle = .ok start ∧
          ∀ (ω : Type) (l : Learner α ω), start.Reached l →
            ∀ w ∈ tests, l.graph.accepts w = c.reference.accepts w := by
  obtain ⟨sample, sampled, traces⟩ := exists_sample made
  have consistent : Consistent ((c.maximal tests).map c.traceOf) := consistent_maximal
  have denoted := fun policy => PrefixTree.exists_ofTraces_of_consistent policy consistent
  refine ⟨sample, sampled, ?_, ?_, ?_, fun {ω₀} settings oracle => ?_⟩
  · have words : ((c.maximal tests).map c.traceOf).map (·.word) = c.maximal tests :=
      (List.map_map ..).trans (List.map_id _)
    rw [traces, words]
    exact nodup_maximal
  · rw [traces]
    simp only [List.forall_mem_map]
    intro v hv w hw first
    obtain ⟨t, ht, same⟩ := (mem_maximal.mp hw).1
    exact same ▸ (mem_maximal.mp hv).2 t ht (same ▸ first)
  · obtain ⟨t, built, denotes, _⟩ := denoted .abort
    refine ⟨t, traces ▸ built, fun w hw => accepts_eq_of_agrees (fun v hv => ?_) hw⟩
    exact denotes.agrees _ (List.mem_map_of_mem hv)
  · obtain ⟨t, built, denotes, skipped⟩ := denoted settings.conflicts
    refine ⟨_, by rw [Learner.ofSample, traces, built], fun ω l reached w hw => ?_⟩
    have sound : Learner.Sound { Learner.ofGraph t.graph settings oracle with
        skipped := t.skipped } := denotes.tree
    have grows := (reached.continues sound).advances.grows
    refine accepts_eq_of_agrees (fun v hv => ?_) hw
    exact grows.agrees (denotes.agrees _ (List.mem_map_of_mem hv))

/-- A graph in which a rejecting state leads back to an accepting one. -/
def detour : Graph Nat :=
  ((((((Graph.single true).addState false).addState true).setTarget ⟨0⟩ 0 ⟨1⟩).setTarget ⟨1⟩ 0
    ⟨2⟩).setTarget ⟨0⟩ 1 ⟨2⟩).setTarget ⟨2⟩ 0 ⟨0⟩

/-- Four traces stand for 23 words, of which many go on behind a rejection. -/
theorem detour_sampled : ∃ tests sample, (Conformance.mk detour 1).testSet = .ok tests ∧
    (Conformance.mk detour 1).sample = .ok sample ∧ tests.length = 23 ∧
      sample.traces = [.rejected [0], .rejected [1, 1], .rejected [1, 0, 0],
        .accepted [1, 0, 1, 0]] ∧
      ∃ t, PrefixTree.ofTraces .abort sample.traces = .ok t ∧
        ∀ w ∈ tests, t.graph.accepts w = detour.accepts w := by
  have facts : (Conformance.mk detour 1).testSet.map List.length = .ok 23 ∧
      (Conformance.mk detour 1).sample = .ok ⟨[.rejected [0], .rejected [1, 1],
        .rejected [1, 0, 0], .accepted [1, 0, 1, 0]]⟩ := by decide +kernel
  obtain ⟨count, sampled⟩ := facts
  cases made : (Conformance.mk detour 1).testSet with
  | error e =>
      rw [made] at count
      cases count
  | ok tests =>
      rw [made] at count
      obtain ⟨sample, sampled', _, _, built, _⟩ := sample_loses_nothing ⟨detour, 1⟩ tests made
      obtain rfl := Except.ok.inj (sampled.symm.trans sampled')
      exact ⟨tests, _, rfl, sampled, Except.ok.inj count, rfl, built⟩

end Conformance

end BlueFringe
