import ParserPackages.Flow

/-!
# Passes over chains

What a pass does as a whole follows from what each callable does: two passes agree when their
steps agree up to a relation, an invariant of every step is one of the pass, and a callable that
notes itself down leaves a record of exactly the callables up to the first that stopped.
-/
namespace ParserPackages

variable {α ι σ τ : Type}

/-- Items were called in order, each once, up to and including the first that stopped the pass.
Each is noted with what it reported. -/
inductive Pass : List α → List (α × Flow) → Prop
  | nil : Pass [] []
  | stop (a : α) (rest : List α) : Pass (a :: rest) [(a, .stop)]
  | proceed (a : α) {rest : List α} {called : List (α × Flow)} (h : Pass rest called) :
      Pass (a :: rest) ((a, .proceed) :: called)

/-- What a pass writes down when every item that is called writes its part. -/
def logAll (step : α → σ → Flow × σ) (log : α → σ → List ι) : List α → σ → List ι
  | [], _ => []
  | a :: rest, s =>
    match step a s with
    | (.stop, _) => log a s
    | (.proceed, s') => log a s ++ logAll step log rest s'

theorem forall_mem_logAll {P : ι → Prop} {step : α → σ → Flow × σ} {log : α → σ → List ι}
    (h : ∀ a s, ∀ x ∈ log a s, P x) (items : List α) (s : σ) :
    ∀ x ∈ logAll step log items s, P x := by
  induction items generalizing s with
  | nil => exact List.forall_mem_nil P
  | cons a rest ih =>
    simp only [logAll]
    rcases step a s with ⟨flow, s'⟩
    cases flow with
    | stop => exact h a s
    | proceed => exact List.forall_mem_append.2 ⟨h a s, ih s'⟩

theorem Pass.prefix_of {items : List α} {called : List (α × Flow)} (h : Pass items called) :
    called.map (·.1) <+: items := by
  induction h with
  | nil => exact List.prefix_rfl
  | stop a rest => exact ⟨rest, rfl⟩
  | proceed a _ ih => exact (List.prefix_cons_inj a).2 ih

theorem runAll_rel {R : σ → τ → Prop} {step : α → σ → Flow × σ} {step' : α → τ → Flow × τ}
    (h : ∀ a s t, R s t → (step a s).1 = (step' a t).1 ∧ R (step a s).2 (step' a t).2)
    (items : List α) {s : σ} {t : τ} (hst : R s t) :
    (runAll step items s).1 = (runAll step' items t).1 ∧
      R (runAll step items s).2 (runAll step' items t).2 := by
  induction items generalizing s t with
  | nil => exact ⟨rfl, hst⟩
  | cons a rest ih =>
    obtain ⟨hflow, hstate⟩ := h a s t hst
    simp only [runAll]
    rcases hs : step a s with ⟨flow, s'⟩
    rcases ht : step' a t with ⟨flow', t'⟩
    rw [hs, ht] at hflow hstate
    obtain rfl : flow = flow' := hflow
    cases flow with
    | stop => exact ⟨rfl, hstate⟩
    | proceed => exact ih hstate

theorem runAll_keeps {P : σ → Prop} {step : α → σ → Flow × σ} (h : ∀ a s, P s → P (step a s).2)
    (items : List α) {s : σ} (hs : P s) : P (runAll step items s).2 := by
  induction items generalizing s with
  | nil => exact hs
  | cons a rest ih =>
    have hstep := h a s hs
    simp only [runAll]
    rcases he : step a s with ⟨flow, s'⟩
    rw [he] at hstep
    cases flow with
    | stop => exact hstep
    | proceed => exact ih hstep

/-- Where every step notes its item and what that reported, the notes of a pass show which items
were called, and the pass reports a stop if one of them did. -/
theorem exists_pass (note : α → ι) (view : σ → List (ι × Flow)) {step : α → σ → Flow × σ}
    (h : ∀ a s, view (step a s).2 = view s ++ [(note a, (step a s).1)]) (items : List α) (s : σ) :
    ∃ called, Pass items called ∧
      view (runAll step items s).2 = view s ++ called.map (fun call => (note call.1, call.2)) ∧
      ((runAll step items s).1 = .stop ↔ ∃ a, (a, .stop) ∈ called) := by
  induction items generalizing s with
  | nil => exact ⟨[], .nil, by simp [runAll]⟩
  | cons a rest ih =>
    have hstep := h a s
    simp only [runAll]
    rcases he : step a s with ⟨flow, s'⟩
    rw [he] at hstep
    cases flow with
    | stop => exact ⟨[(a, .stop)], .stop a rest, hstep, by simp⟩
    | proceed =>
      obtain ⟨called, hpass, hview, hflow⟩ := ih s'
      refine ⟨(a, .proceed) :: called, .proceed a hpass, ?_, by simp [hflow]⟩
      rw [hview, hstep, List.append_assoc, List.singleton_append, List.map_cons]

end ParserPackages
