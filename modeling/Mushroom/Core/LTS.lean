import Mathlib

/-!
# Labelled transition systems

States, labels, initial states and a step relation; runs are labelled lists of
steps. A property that holds initially and is kept by every step (`Inductive`)
holds of every reachable state; `Run.keeps` is the same along a run from any
state. `Sim` is the forward simulation between two systems with the same labels.
-/
namespace Mushroom

structure LTS (S L : Type) where
  init : S → Prop
  step : S → L → S → Prop

namespace LTS

variable {S T L : Type}

/-- A system whose steps are a partial function; `none` is a refused (or
panicking) step. -/
def ofFn (init : S → Prop) (f : S → L → Option S) : LTS S L where
  init := init
  step s l s' := f s l = some s'

inductive Run (M : LTS S L) : S → List L → S → Prop where
  | nil (s : S) : Run M s [] s
  | cons {s s' s'' : S} {l : L} {ls : List L} : M.step s l s' → Run M s' ls s'' → Run M s (l :: ls) s''

variable {M : LTS S L} {s s'' : S} {ls : List L}

lemma Run.via {l : L} (s' : S) (h : M.step s l s') (hr : M.Run s' ls s'') : M.Run s (l :: ls) s'' := .cons h hr

def Reachable (M : LTS S L) (s : S) : Prop := ∃ s₀ ls, M.init s₀ ∧ M.Run s₀ ls s

structure Inductive (M : LTS S L) (P : S → Prop) : Prop where
  init : ∀ s, M.init s → P s
  step : ∀ s l s', P s → M.step s l s' → P s'

variable {s' : S} {P : S → Prop}

lemma Run.keeps (hp : ∀ s l s', P s → M.step s l s' → P s') (h : M.Run s ls s') (hs : P s) : P s' := by
  induction h with
  | nil => exact hs
  | cons hst _ ih => exact ih (hp _ _ _ hs hst)

lemma Inductive.reachable (h : M.Inductive P) (s : S) (hr : M.Reachable s) : P s := by
  obtain ⟨s0, ls, h0, hrun⟩ := hr
  exact hrun.keeps h.step (h.init s0 h0)

lemma Run.append {a b c : S} {l1 l2 : List L} (h1 : M.Run a l1 b) (h2 : M.Run b l2 c) : M.Run a (l1 ++ l2) c := by
  induction h1 with
  | nil => exact h2
  | cons hs _ ih => exact .cons hs (ih h2)

lemma Reachable.run (h : M.Reachable s) (hr : M.Run s ls s') : M.Reachable s' := by
  obtain ⟨s0, l0, h0, hrun⟩ := h
  exact ⟨s0, l0 ++ ls, h0, hrun.append hr⟩

/-- The state after the steps `ls`, if none is refused. -/
def runFn (f : S → L → Option S) : S → List L → Option S
  | s, [] => some s
  | s, l :: ls => (f s l).bind fun s => runFn f s ls

lemma runFn_run {init : S → Prop} {f : S → L → Option S} (h : runFn f s ls = some s') : (ofFn init f).Run s ls s' := by
  induction ls generalizing s with
  | nil =>
    cases h
    exact .nil _
  | cons l ls ih =>
    obtain ⟨s1, hs, hrest⟩ := Option.bind_eq_some_iff.1 h
    exact .via s1 hs (ih hrest)

/-- The runs in which every step meets a condition on the state before it. -/
def only (M : LTS S L) (P : S → L → Prop) : LTS S L where
  init := M.init
  step s l s' := P s l ∧ M.step s l s'

/-- A run of which every step is tested before it is made. -/
lemma runFn_only {init : S → Prop} {f : S → L → Option S} {P : S → L → Prop} (test : S → L → Bool)
    (htest : ∀ s l, test s l = true → P s l) (h : runFn (fun s l => if test s l then f s l else none) s ls = some s') :
    ((ofFn init f).only P).Run s ls s' := by
  induction ls generalizing s with
  | nil =>
    cases h
    exact .nil _
  | cons l ls ih =>
    obtain ⟨s1, hs, hrest⟩ := Option.bind_eq_some_iff.1 h
    obtain ⟨hl, hs⟩ := Option.ite_none_right_eq_some.1 hs
    exact .via s1 ⟨htest s l hl, hs⟩ (ih hrest)

lemma Run.of_only {P : S → L → Prop} (h : (M.only P).Run s ls s') : M.Run s ls s' := by
  induction h with
  | nil s => exact .nil s
  | cons hst _ ih => exact .cons hst.2 ih

/-- Each step of `M` is matched by a step of `N` with the same label. -/
structure Sim (M : LTS S L) (N : LTS T L) (R : S → T → Prop) : Prop where
  init : ∀ s, M.init s → ∃ t, N.init t ∧ R s t
  step : ∀ s l s' t, R s t → M.step s l s' → ∃ t', N.step t l t' ∧ R s' t'

lemma Sim.run {N : LTS T L} {R : S → T → Prop} (h : Sim M N R) (hr : M.Run s ls s') {t : T} (hR : R s t) :
    ∃ t', N.Run t ls t' ∧ R s' t' := by
  induction hr generalizing t with
  | nil => exact ⟨t, .nil t, hR⟩
  | cons hst _ ih =>
    obtain ⟨t1, ht1, hR1⟩ := h.step _ _ _ t hR hst
    obtain ⟨t', ht', hR'⟩ := ih hR1
    exact ⟨t', .cons ht1 ht', hR'⟩

end LTS

end Mushroom
