import Mathlib.Logic.Basic

/-!
# Machines with outputs: runs, invariants, simulations

A machine is a step function `σ → ι → σ × ο`: from a state and an input, the next state and what
the step returns. `run` and `trace` fold it over a list of inputs. The rules here are the only
inductions over runs the rest of the development needs:

* `run_inv`: what every step keeps holds at the end of every run;
* `always_of_meets`: what every step *meeting a condition* keeps holds in every state of a run
  whose steps all meet it (`always_iff_meets`: and in no other run, when the condition is exact);
* `trace_eq_of_sim`: two machines related step by step return the same values;
* `exists_allowed_of_meets`: a machine that does what a relation allows, step by step, does so in a run.
-/

namespace Machine

variable {σ τ ι ο : Type}

/-- The state at the end of a run. -/
def run (step : σ → ι → σ × ο) : σ → List ι → σ
  | s, [] => s
  | s, i :: is => run step (step s i).1 is

/-- What the steps of a run return. -/
def trace (step : σ → ι → σ × ο) : σ → List ι → List ο
  | _, [] => []
  | s, i :: is => (step s i).2 :: trace step (step s i).1 is

/-- `P` holds in every state of the run, the first and the last included. -/
def Always (step : σ → ι → σ × ο) (P : σ → Prop) : σ → List ι → Prop
  | s, [] => P s
  | s, i :: is => P s ∧ Always step P (step s i).1 is

/-- Every step of the run is taken from a state and with an input related by `G`. -/
def Meets (step : σ → ι → σ × ο) (G : σ → ι → Prop) : σ → List ι → Prop
  | _, [] => True
  | s, i :: is => G s i ∧ Meets step G (step s i).1 is

section Runs
variable {step : σ → ι → σ × ο} {P : σ → Prop} {G : σ → ι → Prop}

@[simp] theorem run_nil (s : σ) : run step s [] = s := rfl
@[simp] theorem run_cons (s : σ) (i : ι) (is : List ι) : run step s (i :: is) = run step (step s i).1 is := rfl

theorem run_append (s : σ) (is js : List ι) : run step s (is ++ js) = run step (run step s is) js := by
  induction is generalizing s with
  | nil => rfl
  | cons i is ih => exact ih _

theorem trace_append (s : σ) (is js : List ι) :
    trace step s (is ++ js) = trace step s is ++ trace step (run step s is) js := by
  induction is generalizing s with
  | nil => rfl
  | cons i is ih => simp only [List.cons_append, trace, run_cons, ih]

theorem run_inv (hstep : ∀ s i, P s → P (step s i).1) {s : σ} (hs : P s) (is : List ι) :
    P (run step s is) := by
  induction is generalizing s with
  | nil => exact hs
  | cons i is ih => exact ih (hstep s i hs)

/-- **Guarded invariant rule.** -/
theorem always_of_meets (hstep : ∀ s i, P s → G s i → P (step s i).1) {s : σ} (hs : P s)
    {is : List ι} (hm : Meets step G s is) : Always step P s is := by
  induction is generalizing s with
  | nil => exact hs
  | cons i is ih => exact ⟨hs, ih (hstep s i hs hm.1) hm.2⟩

/-- The same at the end of the run. -/
theorem run_of_meets (hstep : ∀ s i, P s → G s i → P (step s i).1) {s : σ} (hs : P s) {is : List ι}
    (hm : Meets step G s is) : P (run step s is) := by
  induction is generalizing s with
  | nil => exact hs
  | cons i is ih => exact ih (hstep s i hs hm.1) hm.2

theorem meets_trivial (step : σ → ι → σ × ο) (s : σ) (is : List ι) : Meets step (fun _ _ => True) s is := by
  induction is generalizing s with
  | nil => trivial
  | cons i is ih => exact ⟨trivial, ih _⟩

/-- **Exact invariant rule.** Under a condition `F` along the run, when a step from a state with `P` shows `Q` if it
meets `G` and otherwise not, so does the run. -/
theorem always_iff_meets_of {F : σ → ι → Prop} {Q : σ → Prop} (hPQ : ∀ s, P s → Q s)
    (hkeep : ∀ s i, P s → F s i → G s i → P (step s i).1) (hexact : ∀ s i, P s → F s i → Q (step s i).1 → G s i) {s : σ}
    (hs : P s) {is : List ι} (hf : Meets step F s is) : Always step Q s is ↔ Meets step G s is := by
  induction is generalizing s with
  | nil => exact iff_of_true (hPQ s hs) trivial
  | cons i is ih =>
    constructor
    · rintro ⟨-, hrest⟩
      have hg : G s i := by
        cases is with
        | nil => exact hexact s i hs hf.1 hrest
        | cons j is => exact hexact s i hs hf.1 hrest.1
      exact ⟨hg, (ih (hkeep s i hs hf.1 hg) hf.2).1 hrest⟩
    · rintro ⟨hg, hrest⟩
      exact ⟨hPQ s hs, (ih (hkeep s i hs hf.1 hg) hf.2).2 hrest⟩

/-- The same in every run. -/
theorem always_iff_meets {Q : σ → Prop} (hPQ : ∀ s, P s → Q s) (hkeep : ∀ s i, P s → G s i → P (step s i).1)
    (hexact : ∀ s i, P s → Q (step s i).1 → G s i) {s : σ} (hs : P s) (is : List ι) :
    Always step Q s is ↔ Meets step G s is :=
  always_iff_meets_of hPQ (fun s i hp _ => hkeep s i hp) (fun s i hp _ => hexact s i hp) hs (meets_trivial step s is)

/-- **Guarded output rule.** -/
theorem trace_of_meets {Q : ο → Prop} (hstep : ∀ s i, P s → G s i → P (step s i).1 ∧ Q (step s i).2) {s : σ}
    (hs : P s) {is : List ι} (hm : Meets step G s is) : ∀ o ∈ trace step s is, Q o := by
  induction is generalizing s with
  | nil => intro o ho; cases ho
  | cons i is ih =>
    obtain ⟨hp, hq⟩ := hstep s i hs hm.1
    intro o ho
    rcases List.mem_cons.1 ho with rfl | ho
    · exact hq
    · exact ih hp hm.2 o ho

/-- **Exact output rule.** Under a condition `F` along the run, every output shows `Q` exactly when every
step meets `G`. -/
theorem trace_iff_meets {Q : ο → Prop} {F : σ → ι → Prop} (hkeep : ∀ s i, P s → P (step s i).1)
    (hexact : ∀ s i, P s → F s i → (Q (step s i).2 ↔ G s i)) {s : σ} (hs : P s) {is : List ι} (hf : Meets step F s is) :
    (∀ o ∈ trace step s is, Q o) ↔ Meets step G s is := by
  induction is generalizing s with
  | nil => exact iff_of_true (fun o ho => by cases ho) trivial
  | cons i is ih =>
    rw [trace, List.forall_mem_cons, Meets, hexact s i hs hf.1, ih (hkeep s i hs) hf.2]

/-- **Guarded step rule.** What an invariant says about every step, said of the whole run. -/
theorem meets_of_inv {G' : σ → ι → Prop} (hstep : ∀ s i, P s → G s i → P (step s i).1 ∧ G' s i) {s : σ} (hs : P s)
    {is : List ι} (hm : Meets step G s is) : Meets step G' s is := by
  induction is generalizing s with
  | nil => trivial
  | cons i is ih =>
    obtain ⟨hp, hg⟩ := hstep s i hs hm.1
    exact ⟨hg, ih hp hm.2⟩

theorem Always.head {s : σ} {is : List ι} (h : Always step P s is) : P s := by
  cases is with
  | nil => exact h
  | cons i is => exact h.1

theorem Always.mono {Q : σ → Prop} (hPQ : ∀ s, P s → Q s) {s : σ} {is : List ι}
    (h : Always step P s is) : Always step Q s is := by
  induction is generalizing s with
  | nil => exact hPQ s h
  | cons i is ih => exact ⟨hPQ s h.1, ih h.2⟩

theorem Meets.mono {G' : σ → ι → Prop} (hGG : ∀ s i, G s i → G' s i) {s : σ} {is : List ι}
    (h : Meets step G s is) : Meets step G' s is := by
  induction is generalizing s with
  | nil => trivial
  | cons i is ih => exact ⟨hGG s i h.1, ih h.2⟩

theorem meets_append {s : σ} {is js : List ι} :
    Meets step G s (is ++ js) ↔ Meets step G s is ∧ Meets step G (run step s is) js := by
  induction is generalizing s with
  | nil => simp [Meets]
  | cons i is ih => simp only [List.cons_append, Meets, run_cons, ih, and_assoc]

theorem meets_replicate {s : σ} {i : ι} {n : Nat} (h : ∀ k < n, G (run step s (List.replicate k i)) i) :
    Meets step G s (List.replicate n i) := by
  induction n with
  | zero => trivial
  | succ n ih =>
    rw [List.replicate_succ', meets_append]
    exact ⟨ih fun k hk => h k (by omega), h n (by omega), trivial⟩

theorem meets_of_forall (step : σ → ι → σ × ο) {H : ι → Prop} {is : List ι} (h : ∀ i ∈ is, H i) (s : σ) :
    Meets step (fun _ i => H i) s is := by
  induction is generalizing s with
  | nil => trivial
  | cons i is ih => exact ⟨h i List.mem_cons_self, ih (fun j hj => h j (List.mem_cons_of_mem i hj)) _⟩

end Runs

/-- **Simulation rule.** States related by `R` stay related, and `f` shows the same of what the steps
return. -/
theorem trace_map_eq_of_sim {κ : Type} {f : ο → κ} {step : σ → ι → σ × ο} {step' : τ → ι → τ × ο} {R : σ → τ → Prop}
    (hsim : ∀ s t i, R s t → R (step s i).1 (step' t i).1 ∧ f (step s i).2 = f (step' t i).2)
    {s : σ} {t : τ} (hst : R s t) (is : List ι) : (trace step s is).map f = (trace step' t is).map f := by
  induction is generalizing s t with
  | nil => rfl
  | cons i is ih =>
    obtain ⟨hr, ho⟩ := hsim s t i hst
    simp only [trace, List.map_cons, ho, ih hr]

theorem trace_eq_of_sim {step : σ → ι → σ × ο} {step' : τ → ι → τ × ο} {R : σ → τ → Prop}
    (hsim : ∀ s t i, R s t → R (step s i).1 (step' t i).1 ∧ (step s i).2 = (step' t i).2)
    {s : σ} {t : τ} (hst : R s t) (is : List ι) : trace step s is = trace step' t is := by
  simpa using trace_map_eq_of_sim (f := id) hsim hst is

theorem run_of_sim {step : σ → ι → σ × ο} {step' : τ → ι → τ × ο} {R : σ → τ → Prop}
    (hsim : ∀ s t i, R s t → R (step s i).1 (step' t i).1) {s : σ} {t : τ} (hst : R s t) (is : List ι) :
    R (run step s is) (run step' t is) := by
  induction is generalizing s t with
  | nil => exact hst
  | cons i is ih => exact ih (hsim s t i hst)

/-- **Guarded simulation rule.** The steps need to be related only where the condition is met. -/
theorem trace_eq_of_meets {step : σ → ι → σ × ο} {step' : τ → ι → τ × ο} {R : σ → τ → Prop} {G : σ → ι → Prop}
    (hsim : ∀ s t i, R s t → G s i → R (step s i).1 (step' t i).1 ∧ (step s i).2 = (step' t i).2)
    {s : σ} {t : τ} (hst : R s t) {is : List ι} (hm : Meets step G s is) : trace step s is = trace step' t is := by
  induction is generalizing s t with
  | nil => rfl
  | cons i is ih =>
    obtain ⟨hr, ho⟩ := hsim s t i hst hm.1
    simp only [trace, ho, ih hr hm.2]

/-- What related states have in common holds all along related runs. -/
theorem always_of_sim {step : σ → ι → σ × ο} {step' : τ → ι → τ × ο} {R : σ → τ → Prop}
    (hsim : ∀ s t i, R s t → R (step s i).1 (step' t i).1) {P : σ → Prop} {Q : τ → Prop}
    (hPQ : ∀ s t, R s t → P s ∧ Q t) {s : σ} {t : τ} (hst : R s t) (is : List ι) :
    Always step P s is ∧ Always step' Q t is := by
  induction is generalizing s t with
  | nil => exact hPQ s t hst
  | cons i is ih =>
    obtain ⟨hp, hq⟩ := hPQ s t hst
    obtain ⟨ha, hb⟩ := ih (hsim s t i hst)
    exact ⟨⟨hp, ha⟩, hq, hb⟩

/-- A condition met along a run is met in its image along a related run. -/
theorem meets_of_sim {step : σ → ι → σ × ο} {step' : τ → ι → τ × ο} {R : σ → τ → Prop}
    {G : σ → ι → Prop} {G' : τ → ι → Prop}
    (hsim : ∀ s t i, R s t → R (step s i).1 (step' t i).1 ∧ (G s i → G' t i)) {s : σ} {t : τ}
    (hst : R s t) {is : List ι}
    (h : Meets step G s is) : Meets step' G' t is := by
  induction is generalizing s t with
  | nil => trivial
  | cons i is ih =>
    obtain ⟨hr, hg⟩ := hsim s t i hst
    exact ⟨hg h.1, ih hr h.2⟩

/-- What a relation between states, inputs, outputs and next states allows in a run. -/
def Allowed (spec : τ → ι → ο → τ → Prop) : τ → List ι → List ο → τ → Prop
  | t, [], outs, t' => outs = [] ∧ t' = t
  | t, i :: is, outs, t' => ∃ o rest t₁, outs = o :: rest ∧ spec t i o t₁ ∧ Allowed spec t₁ is rest t'

/-- **Guarded refinement rule.** -/
theorem exists_allowed_of_meets {spec : τ → ι → ο → τ → Prop} {step : σ → ι → σ × ο} {R : σ → τ → Prop}
    {G : σ → ι → Prop} (hsim : ∀ s t i, R s t → G s i → ∃ t', spec t i (step s i).2 t' ∧ R (step s i).1 t')
    {s : σ} {t : τ} (hst : R s t) {is : List ι} (hm : Meets step G s is) :
    ∃ t', Allowed spec t is (trace step s is) t' ∧ R (run step s is) t' := by
  induction is generalizing s t with
  | nil => exact ⟨t, ⟨rfl, rfl⟩, hst⟩
  | cons i is ih =>
    obtain ⟨t₁, hspec, hr⟩ := hsim s t i hst hm.1
    obtain ⟨t', hrest, hr'⟩ := ih hr hm.2
    exact ⟨t', ⟨_, _, t₁, rfl, hspec, hrest⟩, hr'⟩

/-- Inputs that are replaced by others, one by one. -/
theorem trace_map (step : σ → ι → σ × ο) (f : ι → ι) (s : σ) (is : List ι) :
    trace step s (is.map f) = trace (fun s i => step s (f i)) s is := by
  induction is generalizing s with
  | nil => rfl
  | cons i is ih => simp only [List.map_cons, trace, ih]

theorem meets_map {step : σ → ι → σ × ο} {f : ι → ι} {G : σ → ι → Prop} {s : σ} {is : List ι} :
    Meets step G s (is.map f) ↔ Meets (fun s i => step s (f i)) (fun s i => G s (f i)) s is := by
  induction is generalizing s with
  | nil => exact Iff.rfl
  | cons i is ih => simp only [List.map_cons, Meets, ih]

theorem Meets.and {step : σ → ι → σ × ο} {G G' : σ → ι → Prop} {s : σ} {is : List ι} (h : Meets step G s is)
    (h' : Meets step G' s is) : Meets step (fun s i => G s i ∧ G' s i) s is := by
  induction is generalizing s with
  | nil => trivial
  | cons i is ih => exact ⟨⟨h.1, h'.1⟩, ih h.2 h'.2⟩

end Machine
