import Mathlib.Data.List.Forall2

/-!
# Outcomes of Fallible Code

A fallible computation is an `Except ε α`, and a sequence of checks is a `do`
block over it. The lemmas here take such a block apart from its successful end.

## Main definitions

* `FailsOnly`, `Returns`: How a computation can fail, and that it does not.

## Theorems

* `bind_eq_ok`: A bind that returned returned at every stage.
* `foldlM_invariant`, `foldlM_zipIdx`: A fold that returned carried any invariant its steps
  keep.
-/

namespace Outcome

variable {ε α β σ : Type}

/-- A guard: fail with `e` when the condition holds. -/
def failIf (bad : Prop) [Decidable bad] (e : ε) : Except ε Unit :=
  if bad then .error e else .ok ()

def orFail (e : ε) : Option α → Except ε α
  | some a => .ok a
  | none => .error e

/-- The computation returns, or fails with an error of the kind `P`. -/
def FailsOnly (P : ε → Prop) (x : Except ε α) : Prop := ∀ e, x = .error e → P e

theorem bind_eq_ok {x : Except ε α} {f : α → Except ε β} {b : β} :
    (x >>= f) = .ok b ↔ ∃ a, x = .ok a ∧ f a = .ok b := by
  cases x with
  | error e => simp only [bind, Except.bind, reduceCtorEq, false_and, exists_false]
  | ok a =>
    exact ⟨fun h => ⟨a, rfl, h⟩, fun ⟨_, ha, h⟩ => ha ▸ h⟩

@[simp] theorem pure_eq_ok {a b : α} : (pure a : Except ε α) = .ok b ↔ a = b := by
  simp only [pure, Except.pure, Except.ok.injEq]

theorem map_eq_ok {x : Except ε α} {f : α → β} {b : β} :
    x.map f = .ok b ↔ ∃ a, x = .ok a ∧ f a = b := by
  cases x with
  | error e => simp only [Except.map, reduceCtorEq, false_and, exists_false]
  | ok a => simp only [Except.map, Except.ok.injEq, exists_eq_left']

theorem map_eq_error {x : Except ε α} {f : α → β} {e : ε} : x.map f = .error e ↔ x = .error e := by
  cases x with
  | error e' => simp only [Except.map, Except.error.injEq]
  | ok a => simp only [Except.map, reduceCtorEq]

@[simp] theorem ok_bind (a : α) (f : α → Except ε β) : (Except.ok a >>= f) = f a := rfl

@[simp] theorem error_bind (e : ε) (f : α → Except ε β) : (Except.error e >>= f) = .error e := rfl

@[simp] theorem failIf_eq_ok {bad : Prop} [Decidable bad] {e : ε} {u : Unit} :
    failIf bad e = .ok u ↔ ¬bad := by
  unfold failIf
  by_cases h : bad
  · rw [if_pos h]
    exact ⟨fun hok => (nomatch hok), fun hn => absurd h hn⟩
  · rw [if_neg h]
    exact ⟨fun _ => h, fun _ => rfl⟩

theorem failIf_of_not {bad : Prop} [Decidable bad] (e : ε) (h : ¬bad) :
    failIf bad e = .ok () := failIf_eq_ok.2 h

theorem failIf_of {bad : Prop} [Decidable bad] (e : ε) (h : bad) :
    failIf bad e = .error e := if_pos h

@[simp] theorem orFail_eq_ok {e : ε} {o : Option α} {a : α} : orFail e o = .ok a ↔ o = some a := by
  cases o with
  | none => simp only [orFail, reduceCtorEq]
  | some b => simp only [orFail, Except.ok.injEq, Option.some.injEq]

theorem failIf_bind_eq_ok {bad : Prop} [Decidable bad] {e : ε} {f : Unit → Except ε β}
    {b : β} : (failIf bad e >>= f) = .ok b ↔ ¬bad ∧ f () = .ok b := by
  rw [bind_eq_ok]
  exact ⟨fun ⟨_, h, hf⟩ => ⟨failIf_eq_ok.1 h, hf⟩, fun ⟨h, hf⟩ => ⟨(), failIf_eq_ok.2 h, hf⟩⟩

theorem exists_ok_of_toBool {x : Except ε α} (h : x.toBool = true) : ∃ a, x = .ok a := by
  cases x with
  | error e => cases h
  | ok a => exact ⟨a, rfl⟩

/-- An invariant that every step of a fold keeps holds where the fold returns. -/
theorem foldlM_invariant {f : σ → α → Except ε σ} (P : σ → Prop) (l : List α)
    (hstep : ∀ s a s', a ∈ l → P s → f s a = .ok s' → P s') {s s' : σ} (hs : P s)
    (h : l.foldlM f s = .ok s') : P s' := by
  induction l generalizing s with
  | nil =>
    rw [List.foldlM_nil, pure_eq_ok] at h
    exact h ▸ hs
  | cons a rest ih =>
    rw [List.foldlM_cons, bind_eq_ok] at h
    obtain ⟨s₁, h₁, hrest⟩ := h
    exact ih (fun t b t' hb => hstep t b t' (List.mem_cons_of_mem a hb))
      (hstep s a s₁ List.mem_cons_self hs h₁) hrest

theorem foldlM_zipIdx {f : σ → α × Nat → Except ε σ} (P : List α → σ → Prop) (l : List α)
    (hstep : ∀ done a rest s s', l = done ++ a :: rest → P done s →
      f s (a, done.length) = .ok s' → P (done ++ [a]) s') {s s' : σ}
    (hs : P [] s) (h : l.zipIdx.foldlM f s = .ok s') : P l s' := by
  have hgen : ∀ (rest done : List α) (s₀ : σ), l = done ++ rest → P done s₀ →
      (rest.zipIdx done.length).foldlM f s₀ = .ok s' → P (done ++ rest) s' := by
    intro rest
    induction rest with
    | nil =>
      intro done s₀ _ hdone hfold
      rw [List.zipIdx_nil, List.foldlM_nil, pure_eq_ok] at hfold
      rw [List.append_nil, ← hfold]
      exact hdone
    | cons a rest ih =>
      intro done s₀ hl hdone hfold
      rw [List.zipIdx_cons, List.foldlM_cons, bind_eq_ok] at hfold
      rcases hfold with ⟨s₁, hfirst, hrest⟩
      have hlength : (done ++ [a]).length = done.length + 1 := List.length_append
      have hnext := ih (done ++ [a]) s₁ (by rw [hl, List.append_assoc, List.singleton_append])
        (hstep done a rest s₀ s₁ hl hdone hfirst) (by rw [hlength]; exact hrest)
      rwa [List.append_assoc, List.singleton_append] at hnext
  exact hgen l [] s rfl hs h

/-- An invariant about the part of the list already done and the state after it. -/
theorem forall_of_foldlM_zipIdx {f : σ → α × Nat → Except ε σ} {P : α → Prop} {l : List α}
    (hstep : ∀ s a s', f s a = .ok s' → P a.1) {s s' : σ}
    (h : l.zipIdx.foldlM f s = .ok s') : ∀ a ∈ l, P a := by
  refine foldlM_zipIdx (fun done _ => ∀ a ∈ done, P a) l ?_ (fun _ hnil => nomatch hnil) h
  intro done a _ s s' _ hdone hok
  exact List.forall_mem_append.2 ⟨hdone, List.forall_mem_singleton.2 (hstep s _ s' hok)⟩

theorem foldlM_prefix {f : σ → α → Except ε σ} (P : List α → σ → Prop) (l : List α)
    (hstep : ∀ done s a s', P done s → f s a = .ok s' → P (done ++ [a]) s') {s s' : σ}
    (hs : P [] s) (h : l.foldlM f s = .ok s') : P l s' := by
  have hindexed : l.zipIdx.foldlM (fun s ai => f s ai.1) s = .ok s' := by
    rw [← List.foldlM_map, List.zipIdx_map_fst]
    exact h
  exact foldlM_zipIdx P l (fun done a _ s s' _ => hstep done s a s') hs hindexed

theorem forM_eq_ok {f : α → Except ε Unit} {l : List α} {u : PUnit} :
    l.forM f = .ok u ↔ ∀ a ∈ l, f a = .ok () := by
  induction l with
  | nil => exact ⟨fun _ _ ha => (nomatch ha), fun _ => rfl⟩
  | cons a l ih =>
    show (f a >>= fun _ => l.forM f) = .ok u ↔ _
    rw [bind_eq_ok]
    constructor
    · rintro ⟨_, ha, hl⟩ b hb
      rcases List.mem_cons.1 hb with rfl | hb
      · exact ha
      · exact ih.1 hl b hb
    · intro h
      exact ⟨(), h a List.mem_cons_self, ih.2 (fun b hb => h b (List.mem_cons_of_mem a hb))⟩

/-- A loop whose steps, at the states it reaches, another loop makes as well. -/
theorem foldlM_of_reached {f g : σ → α → Except ε σ} (l : List α) {s s' : σ}
    (hstep : ∀ pre a post s₁ s₂, l = pre ++ a :: post → pre.foldlM f s = .ok s₁ →
      f s₁ a = .ok s₂ → g s₁ a = .ok s₂)
    (h : l.foldlM f s = .ok s') : l.foldlM g s = .ok s' := by
  induction l generalizing s with
  | nil => exact h
  | cons a rest ih =>
    rw [List.foldlM_cons, bind_eq_ok] at h ⊢
    rcases h with ⟨s₁, hfirst, hrest⟩
    refine ⟨s₁, hstep [] a rest s s₁ rfl rfl hfirst, ih (fun pre x post t t' hl ht => ?_) hrest⟩
    refine hstep (a :: pre) x post t t' (congrArg (a :: ·) hl) ?_
    rw [List.foldlM_cons, hfirst, ok_bind]
    exact ht

theorem foldlM_of_step {f g : σ → α → Except ε σ} (l : List α)
    (hstep : ∀ s a s', f s a = .ok s' → g s a = .ok s') {s s' : σ}
    (h : l.foldlM f s = .ok s') : l.foldlM g s = .ok s' :=
  foldlM_of_reached l (fun _ a _ s₁ s₂ _ _ => hstep s₁ a s₂) h

theorem forall₂_of_mapM {f : α → Except ε β} {l : List α} {l' : List β}
    (h : l.mapM f = .ok l') : List.Forall₂ (fun a b => f a = .ok b) l l' := by
  induction l generalizing l' with
  | nil =>
    rw [List.mapM_nil, pure_eq_ok] at h
    subst h
    exact .nil
  | cons a rest ih =>
    rw [List.mapM_cons] at h
    rcases bind_eq_ok.1 h with ⟨b, hb, h⟩
    rcases bind_eq_ok.1 h with ⟨bs, hbs, h⟩
    rw [pure_eq_ok] at h
    subst h
    exact .cons hb (ih hbs)

theorem exists_of_mem_mapM {f : α → Except ε β} {l : List α} {l' : List β} {b : β}
    (h : l.mapM f = .ok l') (hb : b ∈ l') : ∃ a ∈ l, f a = .ok b := by
  induction l generalizing l' with
  | nil =>
    rw [List.mapM_nil, pure_eq_ok] at h
    subst h
    cases hb
  | cons a rest ih =>
    rw [List.mapM_cons, bind_eq_ok] at h
    rcases h with ⟨b₀, hb₀, h⟩
    rcases bind_eq_ok.1 h with ⟨rest', hrest, h⟩
    rw [pure_eq_ok] at h
    subst h
    rcases List.mem_cons.1 hb with rfl | hb
    · exact ⟨a, List.mem_cons_self, hb₀⟩
    · rcases ih hrest hb with ⟨x, hx, hfx⟩
      exact ⟨x, List.mem_cons_of_mem a hx, hfx⟩

theorem exists_mapM {f : α → Except ε β} {l : List α} (h : ∀ a ∈ l, ∃ b, f a = .ok b) :
    ∃ l', l.mapM f = .ok l' := by
  induction l with
  | nil => exact ⟨[], rfl⟩
  | cons a rest ih =>
    rcases h a List.mem_cons_self with ⟨b, hb⟩
    rcases ih (fun x hx => h x (List.mem_cons_of_mem a hx)) with ⟨l', hl'⟩
    refine ⟨b :: l', ?_⟩
    rw [List.mapM_cons, hb, ok_bind, hl', ok_bind]
    rfl

section FailsOnly

variable {P : ε → Prop}

theorem failsOnly_ok (a : α) : FailsOnly P (.ok a) := fun _ h => nomatch h

theorem failsOnly_pure (a : α) : FailsOnly P (pure a) := failsOnly_ok a

theorem failsOnly_orFail {e : ε} (h : P e) (o : Option α) : FailsOnly P (orFail e o) := by
  intro e' he'
  cases o with
  | none =>
    cases he'
    exact h
  | some a => cases he'

theorem failsOnly_failIf {bad : Prop} [Decidable bad] {e : ε} (h : bad → P e) :
    FailsOnly P (failIf bad e) := by
  intro e' he'
  by_cases hbad : bad
  · rw [failIf_of e hbad] at he'
    cases he'
    exact h hbad
  · rw [failIf_of_not e hbad] at he'
    cases he'

theorem FailsOnly.bind {x : Except ε α} {f : α → Except ε β} (hx : FailsOnly P x)
    (hf : ∀ a, x = .ok a → FailsOnly P (f a)) : FailsOnly P (x >>= f) := by
  intro e he
  cases hres : x with
  | error e' =>
    rw [hres, error_bind] at he
    cases he
    exact hx _ hres
  | ok a =>
    rw [hres, ok_bind] at he
    exact hf a hres e he

theorem failsOnly_bind_iff {x : Except ε α} {f : α → Except ε β} :
    FailsOnly P (x >>= f) ↔ FailsOnly P x ∧ ∀ a, x = .ok a → FailsOnly P (f a) := by
  refine ⟨fun h => ⟨fun e he => h e ?_, fun a ha e he => h e ?_⟩, fun h => h.1.bind h.2⟩
  · rw [he]
    rfl
  · rw [ha]
    exact he

theorem failsOnly_error_iff {e : ε} : FailsOnly P (.error e : Except ε α) ↔ P e :=
  ⟨fun h => h e rfl, fun h e' he' => by cases he'; exact h⟩

theorem failsOnly_foldlM {f : σ → α → Except ε σ} (l : List α)
    (hf : ∀ s a, FailsOnly P (f s a)) (s : σ) : FailsOnly P (l.foldlM f s) := by
  induction l generalizing s with
  | nil => exact failsOnly_pure s
  | cons a rest ih =>
    exact (hf s a).bind (fun s' _ => ih s')

theorem failsOnly_mapM {f : α → Except ε β} (l : List α) (hf : ∀ a, FailsOnly P (f a)) :
    FailsOnly P (l.mapM f) := by
  induction l with
  | nil => exact failsOnly_pure []
  | cons a rest ih =>
    rw [List.mapM_cons]
    exact (hf a).bind fun _ _ => ih.bind fun _ _ => failsOnly_pure _

theorem failsOnly_forM {f : α → Except ε Unit} {l : List α} (hf : ∀ a ∈ l, FailsOnly P (f a)) :
    FailsOnly P (l.forM f) := by
  induction l with
  | nil => exact failsOnly_pure ()
  | cons a rest ih =>
    exact (hf a List.mem_cons_self).bind fun _ _ => ih fun x hx => hf x (List.mem_cons_of_mem a hx)

end FailsOnly

section Returns

def Returns (x : Except ε α) : Prop := ∃ a, x = .ok a

@[simp] theorem returns_ok (a : α) : Returns (.ok a : Except ε α) := ⟨a, rfl⟩

@[simp] theorem returns_pure (a : α) : Returns (pure a : Except ε α) := ⟨a, rfl⟩

@[simp] theorem not_returns_error (e : ε) : ¬Returns (.error e : Except ε α) :=
  fun ⟨_, h⟩ => nomatch h

theorem returns_bind_iff {x : Except ε α} {f : α → Except ε β} :
    Returns (x >>= f) ↔ ∃ a, x = .ok a ∧ Returns (f a) := by
  unfold Returns
  simp only [bind_eq_ok]
  constructor
  · rintro ⟨b, a, ha, hb⟩
    exact ⟨a, ha, b, hb⟩
  · rintro ⟨a, ha, b, hb⟩
    exact ⟨b, a, ha, hb⟩

theorem returns_mapM_iff {f : α → Except ε β} {l : List α} :
    Returns (l.mapM f) ↔ ∀ a ∈ l, Returns (f a) := by
  refine ⟨fun h => ?_, fun h => exists_mapM h⟩
  induction l with
  | nil => exact fun a ha => absurd ha List.not_mem_nil
  | cons a rest ih =>
    rw [List.mapM_cons, returns_bind_iff] at h
    rcases h with ⟨b, hb, h⟩
    rcases returns_bind_iff.1 h with ⟨bs, hbs, -⟩
    intro x hx
    rcases List.mem_cons.1 hx with rfl | hx
    · exact ⟨b, hb⟩
    · exact ih ⟨bs, hbs⟩ x hx

theorem returns_foldlM_iff {f : σ → α → Except ε σ} {P : α → Prop} {l : List α}
    (h : ∀ s, ∀ a ∈ l, Returns (f s a) ↔ P a) (s : σ) : Returns (l.foldlM f s) ↔ ∀ a ∈ l, P a := by
  induction l generalizing s with
  | nil => exact ⟨fun _ a ha => absurd ha List.not_mem_nil, fun _ => returns_pure s⟩
  | cons a rest ih =>
    have hrest := ih (fun s x hx => h s x (List.mem_cons_of_mem a hx))
    rw [List.foldlM_cons, returns_bind_iff, List.forall_mem_cons, ← h s a List.mem_cons_self]
    constructor
    · rintro ⟨s', hs', hfold⟩
      exact ⟨⟨s', hs'⟩, (hrest s').1 hfold⟩
    · rintro ⟨⟨s', hs'⟩, hall⟩
      exact ⟨s', hs', (hrest s').2 hall⟩

end Returns

end Outcome
