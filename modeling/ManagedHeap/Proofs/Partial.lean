/-
# What actions do if they end

`After act s post` says of an action that it does not reach any other state than one that satisfies
`post`; it may stop with a fault.  That is all that can be said of a program that may do anything.
`Keeps R act` says that an action which ends has gone from one state to another that `R` relates to
it.  For a preorder `R` that is a matter of the parts of an action, so a heap keeps what all its
parts keep.

* Section 1: one equation for each way in which actions are put together.
* Section 2: preorders that actions keep.
* Section 3: actions that are known to end only if their arguments are right.
* Section 4: actions that may stop half way, and what they leave behind.
-/
import ManagedHeap.Proofs.Action
import Mathlib.Order.Defs.Unbundled

namespace ManagedHeap

variable {σ τ α β : Type}

/-! ## 1. What holds after an action -/

/-- If the action comes to its end from `s`, result and state satisfy `post`. -/
def After (act : Action σ α) (s : σ) (post : α → σ → Prop) : Prop :=
  ∀ a s', act s = .ok a s' → post a s'

section
variable {act : Action σ α} {s t : σ} {post post' : α → σ → Prop}

theorem After.mono (h : After act s post) (hp : ∀ a s', post a s' → post' a s') :
    After act s post' := fun a s' ha => hp a s' (h a s' ha)

theorem Ends.after (h : Ends act s post) : After act s post := fun _ _ ha => h.of_ok ha

/-- What holds if an action ends holds of the end that it has. -/
theorem Ends.and_after (h : Ends act s post) (h' : After act s post') :
    Ends act s fun a s' => post a s' ∧ post' a s' := by
  obtain ⟨a, s', ha, hp⟩ := h
  exact ⟨a, s', ha, hp, h' a s' ha⟩

theorem after_pure {a : α} : After (pure a) s post ↔ post a s := by
  constructor
  · intro h
    exact h a s rfl
  · intro h b t hb
    cases hb
    exact h

theorem after_bind {f : α → Action σ β} {post : β → σ → Prop} :
    After (act >>= f) s post ↔ After act s fun a t => After (f a) t post := by
  constructor
  · intro h a t ha b u hb
    refine h b u ?_
    show (act >>= f) s = _
    simp only [bind, EStateM.bind, ha]
    exact hb
  · intro h b u hb
    cases ha : act s with
    | ok a t =>
      refine h a t ha b u ?_
      simpa only [bind, EStateM.bind, ha] using hb
    | error e t =>
      simp only [bind, EStateM.bind, ha] at hb
      cases hb

/-- What holds after the second of two actions, wherever the first leads to. -/
theorem after_second {f : α → Action σ β} {post : β → σ → Prop}
    (h : ∀ a t, After (f a) t post) : After (act >>= f) s post :=
  after_bind.2 fun a t _ => h a t

theorem after_get {post : σ → σ → Prop} : After get s post ↔ post s s := by
  constructor
  · intro h
    exact h s s rfl
  · intro h a t ha
    cases ha
    exact h

theorem after_set {post : PUnit → σ → Prop} : After (set t) s post ↔ post ⟨⟩ t := by
  constructor
  · intro h
    exact h ⟨⟩ t rfl
  · intro h a u ha
    cases ha
    exact h

theorem after_modify {f : σ → σ} {post : PUnit → σ → Prop} :
    After (modify f) s post ↔ post ⟨⟩ (f s) := by
  constructor
  · intro h
    exact h ⟨⟩ (f s) rfl
  · intro h a u ha
    cases ha
    exact h

theorem after_throw {e : Fault} : After (throw e : Action σ α) s post := by
  intro a t ha
  cases ha

theorem after_lift {x : Except Fault α} :
    After (liftM x : Action σ α) s post ↔ ∀ a, x = .ok a → post a s := by
  constructor
  · rintro h a rfl
    exact h a s rfl
  · intro h a t ha
    cases x with
    | ok b =>
      cases ha
      exact h _ rfl
    | error e => cases ha

theorem after_ite {c : Prop} [Decidable c] {act' : Action σ α} :
    After (if c then act else act') s post ↔
      (c → After act s post) ∧ (¬ c → After act' s post) := by
  split
  · rename_i hc
    exact ⟨fun h => ⟨fun _ => h, fun hn => absurd hc hn⟩, fun h => h.1 hc⟩
  · rename_i hc
    exact ⟨fun h => ⟨fun hp => absurd hp hc, fun _ => h⟩, fun h => h.2 hc⟩

theorem after_onPart {get : σ → τ} {put : τ → σ → σ} {act : Action τ α} :
    After (act.onPart get put) s post ↔ After act (get s) fun a t => post a (put t s) := by
  constructor
  · intro h a t ha
    refine h a (put t s) ?_
    simp only [Action.onPart, ha]
  · intro h a u ha
    cases hact : act (get s) with
    | ok b t =>
      simp only [Action.onPart, hact] at ha
      cases ha
      exact h _ t hact
    | error e t =>
      simp only [Action.onPart, hact] at ha
      cases ha

end

/-! ## 2. What actions keep -/

/-- An action that ends goes to a state that `R` relates to the one before. -/
def Keeps (R : σ → σ → Prop) (act : Action σ α) : Prop := ∀ s, After act s fun _ s' => R s s'

section
variable {R : σ → σ → Prop} {act : Action σ α}

/-- A part that is kept within `R'` is kept within `R`, if putting it back is. -/
theorem Keeps.onPart {get : σ → τ} {put : τ → σ → σ} {R' : τ → τ → Prop} {act : Action τ α}
    (h : Keeps R' act) (hput : ∀ s t, R' (get s) t → R s (put t s)) :
    Keeps R (act.onPart get put) := by
  intro s
  rw [after_onPart]
  exact (h (get s)).mono fun _ t ht => hput s t ht

/-- A part of which nothing matters. -/
theorem keeps_onPart {get : σ → τ} {put : τ → σ → σ} {act : Action τ α}
    (hput : ∀ s t, R s (put t s)) : Keeps R (act.onPart get put) := by
  intro s
  rw [after_onPart]
  exact fun _ t _ => hput s t

theorem keeps_modify {f : σ → σ} (h : ∀ s, R s (f s)) : Keeps R (modify f) := by
  intro s
  rw [after_modify]
  exact h s

theorem keeps_throw {e : Fault} : Keeps R (throw e : Action σ α) := fun _ => after_throw

/-- An action that begins with a look at the state. -/
theorem keeps_get_bind {f : σ → Action σ α} (h : ∀ s, After (f s) s fun _ s' => R s s') :
    Keeps R (get >>= f) := by
  intro s
  rw [after_bind, after_get]
  exact h s

theorem Keeps.ite {c : Prop} [Decidable c] {act' : Action σ α} (h : Keeps R act)
    (h' : Keeps R act') : Keeps R (if c then act else act') := by
  split
  · exact h
  · exact h'

/-- What holds after an action that keeps `R`, and another. -/
theorem Keeps.after {s : σ} {f : α → Action σ β} {post : β → σ → Prop} (h : Keeps R act)
    (hf : ∀ a t, R s t → After (f a) t post) : After (act >>= f) s post := by
  rw [after_bind]
  exact (h s).mono fun a t ht => hf a t ht

variable [IsPreorder σ R]

theorem keeps_pure {a : α} : Keeps R (pure a) := by
  intro s
  rw [after_pure]
  exact refl_of R s

theorem keeps_get : Keeps R (get : Action σ σ) := by
  intro s
  rw [after_get]
  exact refl_of R s

theorem keeps_lift {x : Except Fault α} : Keeps R (liftM x : Action σ α) := by
  intro s
  rw [after_lift]
  exact fun _ _ => refl_of R s

/-- **A sequence keeps what its parts keep.** -/
theorem Keeps.bind {f : α → Action σ β} (h : Keeps R act) (hf : ∀ a, Keeps R (f a)) :
    Keeps R (act >>= f) := by
  intro s
  rw [after_bind]
  exact (h s).mono fun a t ht => (hf a t).mono fun _ _ hu => trans_of R ht hu

theorem keeps_modify_bind {f : σ → σ} {g : PUnit → Action σ α} (h : ∀ s, R s (f s))
    (hg : ∀ u, Keeps R (g u)) : Keeps R (modify f >>= g) := (keeps_modify h).bind hg

/-- **A loop over a list keeps what its rounds keep.** -/
theorem keeps_each {xs : List α} {f : α → Action σ Unit} (h : ∀ x, Keeps R (f x)) :
    Keeps R (Action.each xs f) := by
  induction xs with
  | nil => exact keeps_pure
  | cons x rest ih => exact (h x).bind fun _ => ih

/-- **A loop over numbers keeps what its rounds keep.** -/
theorem keeps_upTo {start count : Nat} {f : Nat → Action σ Unit} (h : ∀ i, Keeps R (f i)) :
    Keeps R (Action.upTo start count f) := by
  induction count generalizing start with
  | zero => exact keeps_pure
  | succ count ih => exact (h start).bind fun _ => ih

section
variable [HasMemory σ]

theorem keeps_getMemory : Keeps R (getMemory : Action σ Memory) := keeps_get.bind fun _ => keeps_pure

theorem keeps_loadSlot {slot : Nat} : Keeps R (loadSlot slot : Action σ Nat) :=
  keeps_getMemory.bind fun _ => keeps_pure

end

end

/-- **A loop over numbers, with an invariant.**  `inv k s` holds when the first `k` were visited. -/
theorem after_upTo {start count : Nat} {f : Nat → Action σ Unit} {s : σ} (inv : Nat → σ → Prop)
    (hstart : inv 0 s)
    (hstep : ∀ k s, k < count → inv k s → After (f (start + k)) s fun _ s' => inv (k + 1) s') :
    After (Action.upTo start count f) s fun _ s' => inv count s' := by
  induction count generalizing start s inv with
  | zero =>
    rw [Action.upTo, after_pure]
    exact hstart
  | succ count ih =>
    rw [Action.upTo, after_bind]
    refine (hstep 0 s (Nat.zero_lt_succ _) hstart).mono fun _ t ht => ?_
    refine ih (fun k => inv (k + 1)) ht fun k u hk hu => ?_
    have := hstep (k + 1) u (Nat.succ_lt_succ hk) hu
    rwa [Nat.add_assoc, Nat.add_comm 1]

/-! ## 3. Actions that end under a condition -/

/-- If the action ends, result and state satisfy `post`; and it does end if the condition holds. -/
structure EndsIf (c : Prop) (act : Action σ α) (s : σ) (post : α → σ → Prop) : Prop where
  after : After act s post
  ends : c → Ends act s post

section
variable {c : Prop} {act : Action σ α} {s : σ} {post : α → σ → Prop}

theorem Ends.endsIf (h : Ends act s post) : EndsIf c act s post :=
  ⟨h.after, fun _ => h⟩

theorem EndsIf.mono {post' : α → σ → Prop} (h : EndsIf c act s post)
    (hp : ∀ a s', post a s' → post' a s') : EndsIf c act s post' :=
  ⟨h.after.mono hp, fun hc => (h.ends hc).mono hp⟩

/-- What ends under a condition ends under a stronger one. -/
theorem EndsIf.imp {c' : Prop} (h : EndsIf c act s post) (hc : c' → c) : EndsIf c' act s post :=
  ⟨h.after, fun h' => h.ends (hc h')⟩

theorem EndsIf.bind {f : α → Action σ β} {post' : β → σ → Prop} (h : EndsIf c act s post)
    (hf : ∀ a t, post a t → EndsIf c (f a) t post') : EndsIf c (act >>= f) s post' :=
  ⟨after_bind.2 (h.after.mono fun a t ha => (hf a t ha).after),
    fun hc => ends_bind.2 ((h.ends hc).mono fun a t ha => (hf a t ha).ends hc)⟩

theorem endsIf_get_bind {f : σ → Action σ β} {post' : β → σ → Prop} :
    EndsIf c (get >>= f) s post' ↔ EndsIf c (f s) s post' := by
  have hrun : (get >>= f) s = f s s := rfl
  exact ⟨fun h => ⟨fun a t ha => h.after a t (hrun.trans ha), fun hc => by
    simpa only [ends_bind, ends_get] using h.ends hc⟩, fun h => ⟨fun a t ha => h.after a t
      (hrun.symm.trans ha), fun hc => ends_bind.2 (ends_get.2 (h.ends hc))⟩⟩

theorem endsIf_pure {a : α} (h : post a s) : EndsIf c (pure a) s post := (ends_pure.2 h).endsIf

end

/-! ## 4. Actions that may stop half way -/

/-- If the action ends, result and state satisfy `post`; if it stops with a fault, the state that it
leaves satisfies `bad`. -/
structure Leaves (act : Action σ α) (s : σ) (post : α → σ → Prop) (bad : σ → Prop) : Prop where
  after : After act s post
  stops : ∀ f s', act s = .error f s' → bad s'

section
variable {act : Action σ α} {s : σ} {post : α → σ → Prop} {bad : σ → Prop}

theorem Leaves.mono {post' : α → σ → Prop} {bad' : σ → Prop} (h : Leaves act s post bad)
    (hp : ∀ a s', post a s' → post' a s') (hb : ∀ s', bad s' → bad' s') : Leaves act s post' bad' :=
  ⟨h.after.mono hp, fun f s' hs => hb s' (h.stops f s' hs)⟩

/-- An action that ends does not stop. -/
theorem Ends.leaves (h : Ends act s post) : Leaves act s post bad := by
  refine ⟨h.after, fun f s' hs => ?_⟩
  obtain ⟨a, t, ha, -⟩ := h
  cases hs.symm.trans ha

theorem leaves_pure {a : α} (h : post a s) : Leaves (pure a) s post bad := ⟨after_pure.2 h, nofun⟩

theorem leaves_set {t : σ} {post : PUnit → σ → Prop} (h : post ⟨⟩ t) : Leaves (set t) s post bad :=
  ⟨after_set.2 h, nofun⟩

theorem leaves_modify {f : σ → σ} {post : PUnit → σ → Prop} (h : post ⟨⟩ (f s)) :
    Leaves (modify f) s post bad := ⟨after_modify.2 h, nofun⟩

theorem leaves_throw {f : Fault} (h : bad s) : Leaves (throw f : Action σ α) s post bad := by
  refine ⟨after_throw, ?_⟩
  rintro _ _ ⟨⟩
  exact h

/-- **A sequence stops** in its first part, or in the second after the first. -/
theorem Leaves.bind {f : α → Action σ β} {post' : β → σ → Prop} (h : Leaves act s post bad)
    (hf : ∀ a t, post a t → Leaves (f a) t post' bad) : Leaves (act >>= f) s post' bad := by
  refine ⟨after_bind.2 (h.after.mono fun a t ha => (hf a t ha).after), fun e u hu => ?_⟩
  cases ha : act s with
  | ok a t =>
    refine (hf a t (h.after a t ha)).stops e u ?_
    simpa only [Bind.bind, EStateM.bind, ha] using hu
  | error e' t =>
    simp only [Bind.bind, EStateM.bind, ha] at hu
    cases hu
    exact h.stops _ _ ha

theorem leaves_get_bind {f : σ → Action σ α} (h : Leaves (f s) s post bad) :
    Leaves (get >>= f) s post bad := by
  have hget : Leaves get s (fun t u => t = s ∧ u = s) bad := ⟨after_get.2 ⟨rfl, rfl⟩, nofun⟩
  refine hget.bind ?_
  rintro _ _ ⟨rfl, rfl⟩
  exact h

theorem leaves_set_bind {t : σ} {f : PUnit → Action σ α} (h : Leaves (f ⟨⟩) t post bad) :
    Leaves (set t >>= f) s post bad := by
  have hset : Leaves (set t) s (fun _ u => u = t) bad := leaves_set rfl
  refine hset.bind ?_
  rintro _ _ rfl
  exact h

/-- A computation that changes nothing leaves the state as it is where it stops. -/
theorem leaves_lift_bind {x : Except Fault β} {f : β → Action σ α}
    (h : ∀ b, x = .ok b → Leaves (f b) s post bad) (hbad : ∀ e, x = .error e → bad s) :
    Leaves (liftM x >>= f) s post bad := by
  have hlift : Leaves (liftM x) s (fun b t => x = .ok b ∧ t = s) bad := by
    refine ⟨after_lift.2 fun b hb => ⟨hb, rfl⟩, fun e s' hs => ?_⟩
    cases x with
    | ok b => cases hs
    | error e =>
      cases hs
      exact hbad _ rfl
  refine hlift.bind ?_
  rintro b _ ⟨hb, rfl⟩
  exact h b hb

theorem leaves_ite {c : Prop} [Decidable c] {act' : Action σ α} (h : c → Leaves act s post bad)
    (h' : ¬ c → Leaves act' s post bad) : Leaves (if c then act else act') s post bad := by
  split
  · exact h ‹_›
  · exact h' ‹_›

/-- The part of the state is put back, also where its action stops. -/
theorem leaves_onPart {get : σ → τ} {put : τ → σ → σ} {act : Action τ α}
    (h : Leaves act (get s) (fun a t => post a (put t s)) fun t => bad (put t s)) :
    Leaves (act.onPart get put) s post bad := by
  refine ⟨after_onPart.2 h.after, fun f s' hs => ?_⟩
  cases ha : act (get s) with
  | ok a t =>
    simp only [Action.onPart, ha] at hs
    cases hs
  | error e t =>
    simp only [Action.onPart, ha] at hs
    cases hs
    exact h.stops _ _ ha

/-- An action on a part, and what follows it. -/
theorem leaves_onPart_bind {get : σ → τ} {put : τ → σ → σ} {act : Action τ β} {f : β → Action σ α}
    {mid : β → τ → Prop} {badPart : τ → Prop} (h : Leaves act (get s) mid badPart)
    (hf : ∀ b t, mid b t → Leaves (f b) (put t s) post bad) (hbad : ∀ t, badPart t → bad (put t s)) :
    Leaves (act.onPart get put >>= f) s post bad := by
  have hpart : Leaves (act.onPart get put) s (fun b u => ∃ t, mid b t ∧ u = put t s) bad :=
    leaves_onPart (h.mono (fun b t ht => ⟨t, ht, rfl⟩) hbad)
  refine hpart.bind ?_
  rintro b _ ⟨t, ht, rfl⟩
  exact hf b t ht

end

end ManagedHeap
