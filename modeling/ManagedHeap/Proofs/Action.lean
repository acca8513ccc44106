/-
# Actions that come to an end

An `Action` gives a result and a new state, or stops with a fault.  `Ends act s post` says that the
first happens from `s`, and that result and state satisfy `post`.  It is a statement of total
correctness: an action that faults ends in no way at all, so what is proved to end raises no
violation, fails no check and never stalls.

The module has one equation for each way in which actions are put together, by which an action is
executed step by step (sections 1 and 2), and the rules for the two loops `Action.each` and
`Action.upTo`, which ask for an invariant of what was done and what is left (section 3).
-/
import ManagedHeap.Barrier

namespace ManagedHeap

variable {σ τ α β : Type}

/-- The action comes to its end from `s`, with a result and a state that satisfy `post`. -/
def Ends (act : Action σ α) (s : σ) (post : α → σ → Prop) : Prop :=
  ∃ a s', act s = .ok a s' ∧ post a s'

/-- Whether an action ends in a certain way is found out by running it. -/
instance Ends.decidable {act : Action σ α} {s : σ} {post : α → σ → Prop}
    [∀ a s', Decidable (post a s')] : Decidable (Ends act s post) :=
  match h : act s with
  | .ok a s' => decidable_of_iff (post a s') ⟨fun hp => ⟨a, s', h, hp⟩, fun he => by
      obtain ⟨_, _, hact, hp⟩ := he
      rw [h] at hact
      cases hact
      exact hp⟩
  | .error _ _ => isFalse fun he => by
      obtain ⟨_, _, hact, -⟩ := he
      rw [h] at hact
      cases hact

/-! ## 1. Pure steps, and steps in sequence -/

/-- What is enough for a weaker postcondition. -/
theorem Ends.mono {act : Action σ α} {s : σ} {post post' : α → σ → Prop}
    (h : Ends act s post) (hp : ∀ a s', post a s' → post' a s') : Ends act s post' := by
  obtain ⟨a, s', ha, hpost⟩ := h
  exact ⟨a, s', ha, hp a s' hpost⟩

/-- **An action has one end.**  Two postconditions of it hold of the same result and state. -/
theorem Ends.and {act : Action σ α} {s : σ} {post post' : α → σ → Prop}
    (h : Ends act s post) (h' : Ends act s post') :
    Ends act s fun a s' => post a s' ∧ post' a s' := by
  obtain ⟨a, s₁, ha, hpost⟩ := h
  obtain ⟨b, s₂, hb, hpost'⟩ := h'
  rw [ha] at hb
  cases hb
  exact ⟨a, s₁, ha, hpost, hpost'⟩

/-- What an action that ends gives satisfies the postcondition. -/
theorem Ends.of_ok {act : Action σ α} {s s' : σ} {a : α} {post : α → σ → Prop}
    (h : Ends act s post) (ha : act s = .ok a s') : post a s' := by
  obtain ⟨b, t, hb, hpost⟩ := h
  rw [ha] at hb
  cases hb
  exact hpost

/-- An action that ends with one result in one state. -/
theorem Ends.eq_ok {act : Action σ α} {s s' : σ} {a : α}
    (h : Ends act s fun b t => b = a ∧ t = s') : act s = .ok a s' := by
  obtain ⟨b, t, hb, rfl, rfl⟩ := h
  exact hb

/-- What follows an action that has ended. -/
theorem bind_of_ok {act : Action σ α} {f : α → Action σ β} {s s' : σ} {a : α}
    (h : act s = .ok a s') : (act >>= f) s = f a s' := by
  simp only [bind, EStateM.bind, h]

theorem liftM_ok {a : α} : (liftM (Except.ok a : Except Fault α) : Action σ α) = pure a := rfl

@[simp] theorem ends_pure {a : α} {s : σ} {post : α → σ → Prop} :
    Ends (pure a) s post ↔ post a s := by
  constructor
  · rintro ⟨b, t, h, hp⟩
    cases h
    exact hp
  · exact fun h => ⟨a, s, rfl, h⟩

@[simp] theorem ends_bind {act : Action σ α} {f : α → Action σ β} {s : σ}
    {post : β → σ → Prop} :
    Ends (act >>= f) s post ↔ Ends act s fun a t => Ends (f a) t post := by
  constructor
  · rintro ⟨b, u, h, hp⟩
    cases ha : act s with
    | ok a t =>
      refine ⟨a, t, ha, b, u, ?_, hp⟩
      simpa [bind, EStateM.bind, ha] using h
    | error e t => simp [bind, EStateM.bind, ha] at h
  · rintro ⟨a, t, ha, b, u, h, hp⟩
    exact ⟨b, u, by simpa [bind, EStateM.bind, ha] using h, hp⟩

@[simp] theorem ends_get {s : σ} {post : σ → σ → Prop} :
    Ends (get : Action σ σ) s post ↔ post s s := by
  constructor
  · rintro ⟨b, t, h, hp⟩
    cases h
    exact hp
  · exact fun h => ⟨s, s, rfl, h⟩

@[simp] theorem ends_set {s t : σ} {post : PUnit → σ → Prop} :
    Ends (set t : Action σ PUnit) s post ↔ post ⟨⟩ t := by
  constructor
  · rintro ⟨b, u, h, hp⟩
    cases h
    exact hp
  · exact fun h => ⟨⟨⟩, t, rfl, h⟩

@[simp] theorem ends_modify {f : σ → σ} {s : σ} {post : PUnit → σ → Prop} :
    Ends (modify f : Action σ PUnit) s post ↔ post ⟨⟩ (f s) := by
  constructor
  · rintro ⟨b, u, h, hp⟩
    cases h
    exact hp
  · exact fun h => ⟨⟨⟩, f s, rfl, h⟩

@[simp] theorem ends_lift {x : Except Fault α} {s : σ} {post : α → σ → Prop} :
    Ends (liftM x : Action σ α) s post ↔ ∃ a, x = .ok a ∧ post a s := by
  constructor
  · rintro ⟨b, t, h, hp⟩
    cases x with
    | ok a => cases h; exact ⟨_, rfl, hp⟩
    | error f => cases h
  · rintro ⟨a, rfl, hp⟩
    exact ⟨a, s, rfl, hp⟩

/-- A condition of the program decides which of two actions runs. -/
theorem ends_ite {c : Prop} [Decidable c] {act act' : Action σ α} {s : σ}
    {post : α → σ → Prop} :
    Ends (if c then act else act') s post ↔
      (c → Ends act s post) ∧ (¬ c → Ends act' s post) := by
  by_cases hc : c <;> simp [hc]

/-! ## 2. Checks, and actions on a part of the state -/

@[simp] theorem require_eq_ok {c : Prop} [Decidable c] {u : Unit} :
    require c = .ok u ↔ c := by
  unfold require
  split <;> simp_all

@[simp] theorem sum_eq_ok {a b n : Nat} : sum a b = .ok n ↔ a + b < wordLimit ∧ n = a + b := by
  unfold sum
  split <;> rename_i h <;> simp [h, eq_comm]

@[simp] theorem product_eq_ok {a b n : Nat} :
    product a b = .ok n ↔ a * b < wordLimit ∧ n = a * b := by
  unfold product
  split <;> rename_i h <;> simp [h, eq_comm]

@[simp] theorem distance_eq_ok {a b n : Nat} : distance a b = .ok n ↔ b ≤ a ∧ n = a - b := by
  unfold distance
  split <;> rename_i h <;> simp [h, eq_comm]

theorem toOption_eq_some {ε α : Type} {x : Except ε α} {v : α} :
    x.toOption = some v ↔ x = .ok v := by
  cases x <;> simp [Except.toOption]

@[simp] theorem Except.bind_eq_ok {x : Except Fault α} {f : α → Except Fault β} {b : β} :
    (x >>= f) = .ok b ↔ ∃ a, x = .ok a ∧ f a = .ok b := by
  cases x <;> simp [bind, Except.bind]

@[simp] theorem Except.pure_eq_ok {a b : α} :
    (pure a : Except Fault α) = .ok b ↔ a = b := by
  simp [pure, Except.pure]

@[simp] theorem ends_onPart {get : σ → τ} {put : τ → σ → σ} {act : Action τ α} {s : σ}
    {post : α → σ → Prop} :
    Ends (act.onPart get put) s post ↔ Ends act (get s) fun a t => post a (put t s) := by
  constructor
  · rintro ⟨b, u, h, hp⟩
    unfold Action.onPart at h
    cases ha : act (get s) with
    | ok a t => simp only [ha] at h; cases h; exact ⟨_, t, ha, hp⟩
    | error f t => simp [ha] at h
  · rintro ⟨a, t, ha, hp⟩
    exact ⟨a, put t s, by simp [Action.onPart, ha], hp⟩

@[simp] theorem ends_onFirst {act : Action σ α} {x : σ × τ} {post : α → σ × τ → Prop} :
    Ends act.onFirst x post ↔ Ends act x.1 fun a s => post a (s, x.2) :=
  ends_onPart

@[simp] theorem ends_onSecond {act : Action τ α} {x : σ × τ} {post : α → σ × τ → Prop} :
    Ends act.onSecond x post ↔ Ends act x.2 fun a t => post a (x.1, t) :=
  ends_onPart

section
variable [HasMemory σ]

@[simp] theorem ends_onMemory {act : Action Memory α} {s : σ} {post : α → σ → Prop} :
    Ends (onMemory act) s post ↔
      Ends act (HasMemory.memory s) fun a m => post a (HasMemory.setMemory m s) :=
  ends_onPart

@[simp] theorem ends_getMemory {s : σ} {post : Memory → σ → Prop} :
    Ends (getMemory : Action σ Memory) s post ↔ post (HasMemory.memory s) s := by
  simp only [getMemory, ends_bind, ends_get, ends_pure]

@[simp] theorem ends_loadSlot {slot : Nat} {s : σ} {post : Nat → σ → Prop} :
    Ends (loadSlot slot : Action σ Nat) s post ↔ post ((HasMemory.memory s).read slot) s := by
  simp only [loadSlot, ends_bind, ends_getMemory, ends_pure]

@[simp] theorem ends_storeSlot {slot value : Nat} {s : σ} {post : Unit → σ → Prop} :
    Ends (storeSlot slot value : Action σ Unit) s post ↔
      post () (HasMemory.setMemory ((HasMemory.memory s).write slot value) s) := by
  simp [storeSlot, Memory.store]

theorem ends_exchangeSlot {slot old new : Nat} {s : σ} {post : Except Nat Unit → σ → Prop} :
    Ends (exchangeSlot slot old new : Action σ (Except Nat Unit)) s post ↔
      ((HasMemory.memory s).read slot = old →
        post (.ok ()) (HasMemory.setMemory ((HasMemory.memory s).write slot new) s)) ∧
      ((HasMemory.memory s).read slot ≠ old →
        post (.error ((HasMemory.memory s).read slot))
          (HasMemory.setMemory (HasMemory.memory s) s)) := by
  simp only [exchangeSlot, ends_onMemory, Memory.exchange, ends_bind, ends_get, ends_ite, ends_set,
    ends_pure, ne_eq]

end

/-! ## 3. Loops -/

/-- **A loop over a list.**  `inv done rest s` holds of the members that were visited, those that
are left, and the state. -/
theorem ends_each {xs : List α} {f : α → Action σ Unit} {s : σ}
    (inv : List α → List α → σ → Prop) (hstart : inv [] xs s)
    (hstep : ∀ done x rest s, xs = done ++ x :: rest → inv done (x :: rest) s →
      Ends (f x) s fun _ s' => inv (done ++ [x]) rest s') :
    Ends (Action.each xs f) s fun _ s' => inv xs [] s' := by
  suffices h : ∀ rest done s, xs = done ++ rest → inv done rest s →
      Ends (Action.each rest f) s fun _ s' => inv xs [] s' from h xs [] s rfl hstart
  intro rest
  induction rest with
  | nil =>
    intro done s hxs hinv
    simp only [List.append_nil] at hxs
    subst hxs
    simpa [Action.each] using hinv
  | cons x rest ih =>
    intro done s hxs hinv
    simp only [Action.each, ends_bind]
    refine (hstep done x rest s hxs hinv).mono fun _ s' h => ?_
    exact ih (done ++ [x]) s' (by simp [hxs]) h

/-- **A loop over numbers.**  `inv k s` holds when the numbers below `start + k` were visited. -/
theorem ends_upTo {start count : Nat} {f : Nat → Action σ Unit} {s : σ}
    (inv : Nat → σ → Prop) (hstart : inv 0 s)
    (hstep : ∀ k s, k < count → inv k s → Ends (f (start + k)) s fun _ s' => inv (k + 1) s') :
    Ends (Action.upTo start count f) s fun _ s' => inv count s' := by
  suffices h : ∀ left k s, k + left = count → inv k s →
      Ends (Action.upTo (start + k) left f) s fun _ s' => inv count s' from
    h count 0 s (by omega) hstart
  intro left
  induction left with
  | zero =>
    intro k s hk hinv
    have : k = count := by omega
    subst this
    simpa [Action.upTo] using hinv
  | succ left ih =>
    intro k s hk hinv
    simp only [Action.upTo, ends_bind]
    refine (hstep k s (by omega) hinv).mono fun _ s' h => ?_
    exact ih (k + 1) s' (by omega) h

end ManagedHeap
