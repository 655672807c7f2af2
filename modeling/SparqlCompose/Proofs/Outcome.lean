import Mathlib.Data.List.Forall2

/-!
# Computations that may fail

Operations answer in `Except`, and a chain of them succeeds exactly when every link does.
The lemmas here take a success apart into the successes of its links, and carry an invariant
along a loop whose steps may fail.
-/

namespace SparqlCompose.Outcome

variable {ε ε' α β : Type}

/-- A chain succeeds exactly when its first link does and the rest succeeds on its value. -/
theorem bind_eq_ok {x : Except ε α} {f : α → Except ε β} {b : β} :
    (x >>= f) = .ok b ↔ ∃ a, x = .ok a ∧ f a = .ok b := by
  cases x with
  | error e => simp [bind, Except.bind]
  | ok a => simp [bind, Except.bind]

/-- A check and what follows it succeed exactly when both do. -/
theorem check_bind_eq_ok {x : Except ε Unit} {y : Except ε β} {b : β} :
    (x >>= fun _ => y) = .ok b ↔ x = .ok () ∧ y = .ok b := by
  rw [bind_eq_ok]
  constructor
  · intro hparts
    obtain ⟨⟨⟩, hx, hy⟩ := hparts
    exact ⟨hx, hy⟩
  · intro hparts
    obtain ⟨hx, hy⟩ := hparts
    exact ⟨(), hx, hy⟩

/-- A chain fails exactly when its first link does, or the rest fails on its value. -/
theorem bind_eq_error {x : Except ε α} {f : α → Except ε β} {e : ε} :
    (x >>= f) = .error e ↔ x = .error e ∨ ∃ a, x = .ok a ∧ f a = .error e := by
  cases x with
  | error e => simp [bind, Except.bind]
  | ok a => simp [bind, Except.bind]

/-- A success runs straight on. -/
@[simp]
theorem ok_bind (a : α) (f : α → Except ε β) : ((Except.ok a : Except ε α) >>= f) = f a := rfl

/-- A failure ends the chain. -/
@[simp]
theorem error_bind (e : ε) (f : α → Except ε β) :
    ((Except.error e : Except ε α) >>= f) = .error e := rfl

/-- A pure value is a success. -/
@[simp]
theorem pure_eq_ok {a b : α} : (pure a : Except ε α) = .ok b ↔ a = b := by
  simp [pure, Except.pure]

/-- Renaming the error does not touch a success. -/
theorem mapError_eq_ok {f : ε → ε'} {x : Except ε α} {a : α} :
    x.mapError f = .ok a ↔ x = .ok a := by
  cases x with
  | error e => simp [Except.mapError]
  | ok b => simp [Except.mapError]

/-- A renamed error is the name of one. -/
theorem mapError_eq_error {f : ε → ε'} {x : Except ε α} {e' : ε'} :
    x.mapError f = .error e' ↔ ∃ e, x = .error e ∧ f e = e' := by
  cases x with
  | error e => simp [Except.mapError]
  | ok a => simp [Except.mapError]

/-- A mapped computation succeeds exactly when the computation does. -/
theorem map_eq_ok {f : α → β} {x : Except ε α} {b : β} :
    x.map f = .ok b ↔ ∃ a, x = .ok a ∧ f a = b := by
  cases x with
  | error e => simp [Except.map]
  | ok a => simp [Except.map]

/-- A mapped computation fails exactly when the computation does. -/
theorem map_eq_error {f : α → β} {x : Except ε α} {e : ε} :
    x.map f = .error e ↔ x = .error e := by
  cases x with
  | error e' => simp [Except.map]
  | ok a => simp [Except.map]

/-- A check of every element succeeds exactly when each check does. -/
theorem forM_eq_ok {f : α → Except ε Unit} {l : List α} :
    l.forM f = .ok () ↔ ∀ a ∈ l, f a = .ok () := by
  induction l with
  | nil => simp [pure, Except.pure]
  | cons a l ih =>
      change (f a >>= fun _ => l.forM f) = .ok () ↔ _
      rw [bind_eq_ok]
      constructor
      · intro hparts b hb
        obtain ⟨_, ha, hl⟩ := hparts
        rcases List.mem_cons.mp hb with rfl | hb
        · exact ha
        · exact ih.mp hl b hb
      · intro h
        exact ⟨(), h a List.mem_cons_self, ih.mpr fun b hb => h b (List.mem_cons_of_mem _ hb)⟩

/-- A loop that collects results succeeds exactly when each step does. -/
theorem mapM_eq_ok {f : α → Except ε β} {l : List α} {bs : List β} :
    l.mapM f = .ok bs ↔ List.Forall₂ (fun a b => f a = .ok b) l bs := by
  induction l generalizing bs with
  | nil =>
      rw [List.mapM_nil, pure_eq_ok, List.forall₂_nil_left_iff]
      exact eq_comm
  | cons a l ih =>
      rw [List.mapM_cons, List.forall₂_cons_left_iff]
      simp only [bind_eq_ok, pure_eq_ok, ih]
      constructor
      · intro hparts
        obtain ⟨b, hb, bs', hbs, rfl⟩ := hparts
        exact ⟨b, bs', hb, hbs, rfl⟩
      · intro hparts
        obtain ⟨b, bs', hb, hbs, rfl⟩ := hparts
        exact ⟨b, hb, bs', hbs, rfl⟩

/-- A loop whose steps all succeed collects their values. -/
theorem mapM_map {f : α → Except ε β} {g : α → β} {l : List α}
    (h : ∀ a ∈ l, f a = .ok (g a)) : l.mapM f = .ok (l.map g) := by
  rw [mapM_eq_ok, List.forall₂_map_right_iff]
  exact List.forall₂_same.mpr h

/-- A loop keeps what each of its successful steps keeps. -/
theorem foldlM_preserves {f : β → α → Except ε β} (P : β → Prop) {l : List α}
    (hstep : ∀ b, ∀ a ∈ l, ∀ b', P b → f b a = .ok b' → P b') {b b' : β} (hb : P b)
    (h : l.foldlM f b = .ok b') : P b' := by
  induction l generalizing b with
  | nil =>
      cases h
      exact hb
  | cons a l ih =>
      rw [List.foldlM_cons, bind_eq_ok] at h
      obtain ⟨c, hc, hrest⟩ := h
      exact ih (fun b a ha => hstep b a (List.mem_cons_of_mem _ ha))
        (hstep b a List.mem_cons_self c hb hc) hrest

/-- A loop over elements that stand for a list of things succeeds when each step does, from
what holds after the things before it to what holds after its own.  The induction is on the
elements that are left; `done` are the things of the steps that were made. -/
theorem exists_foldlM_eq_ok {γ : Type} {f : β → α → Except ε β} {R : α → γ → Prop}
    (S : List γ → β → Prop) {as : List α} {things : List γ} (has : List.Forall₂ R as things)
    (hstep : ∀ done c rest, things = done ++ c :: rest → ∀ a b, R a c → S done b →
      ∃ b', f b a = .ok b' ∧ S (done ++ [c]) b') {b : β} (hb : S [] b) :
    ∃ b', as.foldlM f b = .ok b' ∧ S things b' := by
  have hrest : ∀ {as cs}, List.Forall₂ R as cs → ∀ done b, things = done ++ cs → S done b →
      ∃ b', as.foldlM f b = .ok b' ∧ S things b' := by
    intro as cs hall
    induction hall with
    | nil =>
        intro done b hthings hdone
        rw [hthings, List.append_nil]
        exact ⟨b, rfl, hdone⟩
    | @cons a c as cs ha _ ih =>
        intro done b hthings hdone
        obtain ⟨b', hf, hnext⟩ := hstep done c cs hthings a b ha hdone
        obtain ⟨b'', hloop, hall⟩ := ih (done ++ [c]) b' (by simp [hthings]) hnext
        refine ⟨b'', ?_, hall⟩
        rw [List.foldlM_cons, hf]
        exact hloop
  exact hrest has [] b rfl hb

/-- A loop that succeeds goes through elements that stand for a list of things, when each
successful step gives its thing. -/
theorem exists_of_foldlM_eq_ok {γ : Type} {f : β → α → Except ε β} {R : α → γ → Prop}
    (S : List γ → β → Prop) {as : List α}
    (hstep : ∀ a ∈ as, ∀ done b b', S done b → f b a = .ok b' → ∃ c, R a c ∧ S (done ++ [c]) b')
    {b b' : β} (hb : S [] b) (h : as.foldlM f b = .ok b') :
    ∃ things, List.Forall₂ R as things ∧ S things b' := by
  have hrest : ∀ done b, S done b → as.foldlM f b = .ok b' →
      ∃ cs, List.Forall₂ R as cs ∧ S (done ++ cs) b' := by
    clear hb h
    induction as with
    | nil =>
        intro done b hdone h
        cases h
        exact ⟨[], .nil, by rwa [List.append_nil]⟩
    | cons a as ih =>
        intro done b hdone h
        rw [List.foldlM_cons, bind_eq_ok] at h
        obtain ⟨b₁, hb₁, hloop⟩ := h
        obtain ⟨c, hc, hnext⟩ := hstep a List.mem_cons_self done b b₁ hdone hb₁
        obtain ⟨cs, hcs, hall⟩ :=
          ih (fun a' ha' => hstep a' (List.mem_cons_of_mem _ ha')) (done ++ [c]) b₁ hnext hloop
        exact ⟨c :: cs, .cons hc hcs, by rwa [List.append_cons]⟩
  exact hrest [] b hb h

/-- Loops whose steps succeed alike succeed alike. -/
theorem foldlM_eq_ok_congr {f f' : β → α → Except ε β} {l : List α}
    (hstep : ∀ a ∈ l, ∀ b b', f b a = .ok b' ↔ f' b a = .ok b') {b b' : β} :
    l.foldlM f b = .ok b' ↔ l.foldlM f' b = .ok b' := by
  induction l generalizing b with
  | nil => rfl
  | cons a l ih =>
      rw [List.foldlM_cons, List.foldlM_cons, bind_eq_ok, bind_eq_ok]
      refine exists_congr fun c => and_congr (hstep a List.mem_cons_self b c) ?_
      exact ih fun a ha => hstep a (List.mem_cons_of_mem _ ha)

end SparqlCompose.Outcome
