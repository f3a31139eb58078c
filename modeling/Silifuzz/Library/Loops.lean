import Mathlib.Data.List.Forall2

/-!
# Loops that may fail

A loop over a list whose step may fail is a `foldlM` in `Option`. If the step
succeeds and carries a property of the elements passed so far one element
further, the whole loop succeeds with the property of the whole list.
-/

namespace Loops

variable {α σ : Type}

/-- The loop rule: `P done s` is the invariant after the elements `done`. -/
theorem foldlM_run {f : σ → α → Option σ} {P : List α → σ → Prop} {l : List α} {s : σ}
    (start : P [] s)
    (next : ∀ done a rest s, l = done ++ a :: rest → P done s →
      ∃ s', f s a = some s' ∧ P (done ++ [a]) s') :
    ∃ s', l.foldlM f s = some s' ∧ P l s' := by
  suffices h : ∀ done rest s, l = done ++ rest → P done s →
      ∃ s', rest.foldlM f s = some s' ∧ P l s' from h [] l s rfl start
  intro done rest
  induction rest generalizing done with
  | nil => rintro s rfl hs; exact ⟨s, rfl, by simpa using hs⟩
  | cons a rest ih =>
    intro s hl hs
    obtain ⟨s', run, hs'⟩ := next done a rest s hl hs
    obtain ⟨s'', run', hs''⟩ := ih (done ++ [a]) s' (by simp [hl]) hs'
    exact ⟨s'', by simp [run, run'], hs''⟩

/-- What a loop that has run leaves behind. -/
theorem foldlM_after {f : σ → α → Option σ} {P : List α → σ → Prop} {l : List α} {s s' : σ}
    (start : P [] s)
    (next : ∀ done a rest s s', l = done ++ a :: rest → P done s → f s a = some s' →
      P (done ++ [a]) s')
    (run : l.foldlM f s = some s') : P l s' := by
  suffices h : ∀ done rest s, l = done ++ rest → P done s → rest.foldlM f s = some s' → P l s' from
    h [] l s rfl start run
  intro done rest
  induction rest generalizing done with
  | nil =>
    rintro s rfl hs run
    obtain rfl : s = s' := Option.some.inj run
    simpa using hs
  | cons a rest ih =>
    intro s hl hs run
    rw [List.foldlM_cons] at run
    obtain ⟨t, first, run⟩ := Option.bind_eq_some_iff.mp run
    exact ih (done ++ [a]) t (by simp [hl]) (next done a rest s t hl hs first) run

/-- A loop whose turns succeed wherever those of another one do, with the same results. -/
theorem foldlM_mono {f g : σ → α → Option σ} {l : List α} {s s' : σ}
    (turn : ∀ a ∈ l, ∀ s s', f s a = some s' → g s a = some s') (run : l.foldlM f s = some s') :
    l.foldlM g s = some s' := by
  induction l generalizing s with
  | nil => exact run
  | cons a l ih =>
    rw [List.foldlM_cons] at run ⊢
    obtain ⟨t, first, rest⟩ := Option.bind_eq_some_iff.mp run
    rw [turn a List.mem_cons_self s t first]
    exact ih (fun b mem => turn b (List.mem_cons_of_mem a mem)) rest

/-- A loop that may fail at a turn, and otherwise does what a plain one does. -/
theorem foldlM_foldl {f : σ → α → Option σ} {g : σ → α → σ} {l : List α} {s s' : σ}
    (turn : ∀ a ∈ l, ∀ s s', f s a = some s' → s' = g s a) (run : l.foldlM f s = some s') :
    s' = l.foldl g s := by
  have plain : l.foldlM (fun s a => pure (g s a)) s = some s' :=
    foldlM_mono (fun a mem s s' run => congrArg some (turn a mem s s' run).symm) run
  rw [List.foldlM_pure] at plain
  exact (Option.some.inj plain).symm

/-- A loop that turns each element into one of a new list. -/
theorem mapM_run {β : Type} {f : α → Option β} {R : α → β → Prop} {l : List α}
    (each : ∀ a ∈ l, ∃ b, f a = some b ∧ R a b) :
    ∃ l', l.mapM f = some l' ∧ List.Forall₂ R l l' := by
  induction l with
  | nil => exact ⟨[], rfl, .nil⟩
  | cons a l ih =>
    obtain ⟨b, hb, rel⟩ := each a (by simp)
    obtain ⟨l', hl', rels⟩ := ih fun x hx => each x (by simp [hx])
    exact ⟨b :: l', by simp [hb, hl'], .cons rel rels⟩

/-- Where an element of the new list comes from. -/
theorem mapM_mem {β : Type} {f : α → Option β} {l : List α} {l' : List β}
    (run : l.mapM f = some l') {b : β} (hb : b ∈ l') : ∃ a ∈ l, f a = some b := by
  induction l generalizing l' with
  | nil =>
    obtain rfl : [] = l' := by simpa using run
    simp at hb
  | cons a l ih =>
    rw [List.mapM_cons] at run
    obtain ⟨c, hc, run⟩ := Option.bind_eq_some_iff.mp run
    obtain ⟨cs, hcs, run⟩ := Option.bind_eq_some_iff.mp run
    obtain rfl : c :: cs = l' := Option.some.inj run
    rcases List.mem_cons.mp hb with rfl | hb
    · exact ⟨a, by simp, hc⟩
    · obtain ⟨d, hd, eq⟩ := ih hcs hb
      exact ⟨d, by simp [hd], eq⟩

theorem mapM_mem_left {β : Type} {f : α → Option β} {l : List α} {l' : List β}
    (run : l.mapM f = some l') {a : α} (ha : a ∈ l) : ∃ b ∈ l', f a = some b := by
  induction l generalizing l' with
  | nil => simp at ha
  | cons x l ih =>
    simp only [List.mapM_cons, Option.bind_eq_bind, Option.pure_def, Option.bind_eq_some_iff,
      Option.some.injEq] at run
    obtain ⟨y, made, rest, run, rfl⟩ := run
    rcases List.mem_cons.mp ha with rfl | ha
    · exact ⟨y, by simp, made⟩
    · obtain ⟨b, hb, made⟩ := ih run ha
      exact ⟨b, by simp [hb], made⟩

theorem mapM_singleton {β : Type} (f : α → Option β) (l : List α) :
    l.mapM (fun a => (f a).map ([·])) = (l.mapM f).map (List.map ([·])) := by
  induction l with
  | nil => rfl
  | cons a l ih =>
    rw [List.mapM_cons, List.mapM_cons, ih]
    cases f a with
    | none => rfl
    | some b => cases l.mapM f <;> rfl

theorem forall₂_mem {β : Type} {R : α → β → Prop} {l : List α} {l' : List β}
    (h : List.Forall₂ R l l') {b : β} (hb : b ∈ l') : ∃ a ∈ l, R a b := by
  induction h with
  | nil => simp at hb
  | cons rel _ ih =>
    rcases List.mem_cons.mp hb with rfl | hb
    · exact ⟨_, by simp, rel⟩
    · obtain ⟨a, ha, rel⟩ := ih hb
      exact ⟨a, by simp [ha], rel⟩

theorem forall₂_mem_left {β : Type} {R : α → β → Prop} {l : List α} {l' : List β}
    (h : List.Forall₂ R l l') {a : α} (ha : a ∈ l) : ∃ b ∈ l', R a b := by
  induction h with
  | nil => simp at ha
  | cons rel _ ih =>
    rcases List.mem_cons.mp ha with rfl | ha
    · exact ⟨_, by simp, rel⟩
    · obtain ⟨b, hb, rel⟩ := ih ha
      exact ⟨b, by simp [hb], rel⟩

theorem forall₂_pairwise {β : Type} {R : α → β → Prop} {P : α → α → Prop} {Q : β → β → Prop}
    {l : List α} {l' : List β} (h : List.Forall₂ R l l') (hp : l.Pairwise P)
    (imp : ∀ {a b a' b'}, R a a' → R b b' → P a b → Q a' b') : l'.Pairwise Q := by
  induction h with
  | nil => exact .nil
  | cons rel rels ih =>
    obtain ⟨first, hp⟩ := List.pairwise_cons.mp hp
    refine List.pairwise_cons.mpr ⟨fun b hb => ?_, ih hp⟩
    obtain ⟨a, ha, rel'⟩ := forall₂_mem rels hb
    exact imp rel rel' (first a ha)

theorem forall₂_getElem? {β : Type} {R : α → β → Prop} {l : List α} {l' : List β}
    (h : List.Forall₂ R l l') {i : Nat} {b : β} (hb : l'[i]? = some b) :
    ∃ a, l[i]? = some a ∧ R a b := by
  induction h generalizing i with
  | nil => simp at hb
  | cons rel _ ih =>
    cases i with
    | zero =>
      simp only [List.getElem?_cons_zero, Option.some.injEq] at hb
      exact ⟨_, rfl, hb ▸ rel⟩
    | succ i => exact ih hb

theorem forall₂_set {β : Type} {R : α → β → Prop} {l : List α} {l' : List β} {a : α} {b : β}
    (h : List.Forall₂ R l l') (i : Nat) (new : R a b) : List.Forall₂ R (l.set i a) (l'.set i b) := by
  induction h generalizing i with
  | nil => exact .nil
  | cons first rest ih =>
    cases i with
    | zero => exact .cons new rest
    | succ i => exact .cons first (ih i)

theorem forall₂_map_eq {β γ : Type} {R : α → β → Prop} {f : α → γ} {g : β → γ}
    (eq : ∀ {a b}, R a b → f a = g b) {l : List α} {l' : List β} (h : List.Forall₂ R l l') :
    l.map f = l'.map g := by
  induction h with
  | nil => rfl
  | cons rel _ ih => rw [List.map_cons, List.map_cons, eq rel, ih]

/-- What a loop whose turns write a value, or leave it, has written last. -/
theorem foldl_last {β : Type} {f : σ → α → σ} {get : σ → β} {write : α → Option β}
    (turn : ∀ s a, get (f s a) = (write a).getD (get s)) (l : List α) (s : σ) :
    get (l.foldl f s) = (l.filterMap write).getLast?.getD (get s) := by
  induction l generalizing s with
  | nil => rfl
  | cons a l ih =>
    rw [List.foldl_cons, ih, turn]
    cases written : write a with
    | none => simp [written]
    | some b => simp [written, List.getLast?_cons]

/-- Where a loop over `List.range n` is when it has passed `done`. -/
theorem range_at {n i : Nat} {done rest : List Nat} (h : List.range n = done ++ i :: rest) :
    i = done.length ∧ done.length < n := by
  have count := congrArg List.length h
  simp only [List.length_range, List.length_append, List.length_cons] at count
  have inside : done.length < (List.range n).length := by
    rw [List.length_range]
    omega
  have at_i : (List.range n)[done.length] = i := by simp [h]
  rw [List.getElem_range] at at_i
  omega

end Loops
