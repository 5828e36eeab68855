import Mathlib.Data.List.Forall2

/-!
Traversals that may fail: they succeed pointwise, and they fail with the first fault.
-/

namespace Flowgate

@[simp] theorem mapError_ok (f : ε → ε') (a : α) :
    (Except.ok a : Except ε α).mapError f = .ok a := rfl

@[simp] theorem mapError_error (f : ε → ε') (e : ε) :
    (Except.error e : Except ε α).mapError f = .error (f e) := rfl

theorem ok_of_mapError {f : ε → ε'} {result : Except ε α} {a : α}
    (done : result.mapError f = .ok a) : result = .ok a := by
  cases result with
  | ok a' =>
    cases done
    rfl
  | error fault => cases done

theorem ok_of_toOption {result : Except ε α} {a : α} (done : result.toOption = some a) :
    result = .ok a := by
  cases result with
  | ok a' =>
    cases done
    rfl
  | error e => cases done

theorem exists_error {result : Except ε α} (failed : result.isOk = false) :
    ∃ e, result = .error e := by
  cases result with
  | ok a => cases failed
  | error e => exact ⟨e, rfl⟩

theorem done_eq {result : Except ε α × β} (done : result.1.isOk = true) :
    ∃ a, result = (.ok a, result.2) := by
  obtain ⟨outcome, b⟩ := result
  cases outcome with
  | ok a => exact ⟨a, rfl⟩
  | error e => cases done

theorem failed_eq {result : Except ε α × β} (failed : result.1.isOk = false) :
    ∃ e, result = (.error e, result.2) := by
  obtain ⟨outcome, b⟩ := result
  cases outcome with
  | ok a => cases failed
  | error e => exact ⟨e, rfl⟩

theorem foldlM_snoc (f : α → Except ε β) (xs : List α) (done : List β) :
    xs.foldlM (fun done x => do return done ++ [← f x]) done = (done ++ ·) <$> xs.mapM f := by
  induction xs generalizing done with
  | nil => exact congrArg Except.ok (List.append_nil done).symm
  | cons x xs ih =>
    rw [List.foldlM_cons, List.mapM_cons]
    cases f x with
    | error e => rfl
    | ok y =>
      refine (ih (done ++ [y])).trans ?_
      cases xs.mapM f with
      | error e => rfl
      | ok ys => exact congrArg Except.ok (List.append_assoc done [y] ys)

theorem mapM_congr {f g : α → Except ε β} {xs : List α} (same : ∀ x ∈ xs, f x = g x) :
    xs.mapM f = xs.mapM g := by
  induction xs with
  | nil => rfl
  | cons x xs ih =>
    rw [List.mapM_cons, List.mapM_cons, same x List.mem_cons_self,
      ih fun y member => same y (List.mem_cons_of_mem _ member)]

theorem mapM_flatMap (g : β → Except ε γ) (f : α → List β) (xs : List α) :
    (xs.flatMap f).mapM g = List.flatten <$> xs.mapM fun x => (f x).mapM g := by
  induction xs with
  | nil => rfl
  | cons x xs ih =>
    rw [List.flatMap_cons, List.mapM_append, List.mapM_cons, ih]
    cases (f x).mapM g with
    | error e => rfl
    | ok ys => cases xs.mapM fun x => (f x).mapM g <;> rfl

theorem mapM_map_ok (f : α → Except ε β) (g : β → γ) (xs : List α) :
    (xs.mapM fun x => g <$> f x) = List.map g <$> xs.mapM f := by
  induction xs with
  | nil => rfl
  | cons x xs ih =>
    rw [List.mapM_cons, List.mapM_cons, ih]
    cases f x with
    | error e => rfl
    | ok y => cases xs.mapM f <;> rfl

theorem mapM_ok_iff (f : α → Except ε β) (xs : List α) (ys : List β) :
    xs.mapM f = .ok ys ↔ List.Forall₂ (fun x y => f x = .ok y) xs ys := by
  induction xs generalizing ys with
  | nil =>
    constructor
    · intro h
      cases h
      exact .nil
    · intro h
      cases h
      rfl
  | cons x xs ih =>
    rw [List.mapM_cons]
    constructor
    · intro h
      cases here : f x with
      | error e => rw [here] at h; cases h
      | ok y =>
        rw [here] at h
        cases there : xs.mapM f with
        | error e => rw [there] at h; cases h
        | ok rest =>
          rw [there] at h
          cases h
          exact .cons here ((ih rest).mp there)
    · rintro (_ | ⟨here, there⟩)
      rw [here, (ih _).mpr there]
      rfl

theorem mapM_error_of_first (f : α → Except ε β) {before after : List α} {x : α} {e : ε}
    (passed : ∀ y ∈ before, ∃ z, f y = .ok z) (failed : f x = .error e) :
    (before ++ x :: after).mapM f = .error e := by
  induction before with
  | nil =>
    rw [List.nil_append, List.mapM_cons, failed]
    rfl
  | cons y before ih =>
    obtain ⟨z, here⟩ := passed y List.mem_cons_self
    rw [List.cons_append, List.mapM_cons, here,
      ih fun w member => passed w (List.mem_cons_of_mem _ member)]
    rfl

theorem mapM_some_iff {f : α → Option β} {xs : List α} {ys : List β} :
    xs.mapM f = some ys ↔ List.Forall₂ (fun x y => f x = some y) xs ys := by
  induction xs generalizing ys with
  | nil => simp [eq_comm]
  | cons x xs ih =>
    rw [List.mapM_cons]
    cases here : f x with
    | none => simp [List.forall₂_cons_left_iff, here]
    | some y =>
      simp only [List.forall₂_cons_left_iff, Option.bind_eq_bind, Option.bind_some,
        Option.bind_eq_some_iff, Option.pure_def, Option.some.injEq, ih, here]
      constructor
      · rintro ⟨zs, rest, rfl⟩
        exact ⟨y, zs, rfl, rest, rfl⟩
      · rintro ⟨z, zs, rfl, rest, rfl⟩
        exact ⟨zs, rest, rfl⟩

theorem mem_of_mapM_some {f : α → Option β} {xs : List α} {ys : List β}
    (done : xs.mapM f = some ys) {y : β} (member : y ∈ ys) : ∃ x ∈ xs, f x = some y := by
  induction mapM_some_iff.mp done with
  | nil => cases member
  | cons here _ ih =>
    rename_i x z xs zs rest
    rcases List.mem_cons.mp member with rfl | there
    · exact ⟨x, List.mem_cons_self, here⟩
    · obtain ⟨w, among, found⟩ := ih (mapM_some_iff.mpr rest) there
      exact ⟨w, List.mem_cons_of_mem _ among, found⟩

theorem mapM_map_some {f : α → Option β} {g : γ → α} {h : γ → β} {zs : List γ}
    (back : ∀ z ∈ zs, f (g z) = some (h z)) : (zs.map g).mapM f = some (zs.map h) := by
  rw [mapM_some_iff, List.forall₂_map_left_iff, List.forall₂_map_right_iff, List.forall₂_same]
  exact back

-- If each step of one traversal has a counterpart in another one, so has every run.
theorem foldlM_refines {step : σ → ι → Option σ} {effect : τ → ι → Option τ} {R : σ → τ → Prop}
    (refines : ∀ s t i s', R s t → step s i = some s' → ∃ t', effect t i = some t' ∧ R s' t')
    {is : List ι} {s s' : σ} {t : τ} (related : R s t) (done : is.foldlM step s = some s') :
    ∃ t', is.foldlM effect t = some t' ∧ R s' t' := by
  induction is generalizing s t with
  | nil =>
    cases done
    exact ⟨t, rfl, related⟩
  | cons i is ih =>
    obtain ⟨middle, first, rest⟩ := Option.bind_eq_some_iff.mp done
    obtain ⟨t', first', related'⟩ := refines s t i middle related first
    obtain ⟨last, rest', related''⟩ := ih related' rest
    exact ⟨last, by rw [List.foldlM_cons, first']; exact rest', related''⟩

end Flowgate
