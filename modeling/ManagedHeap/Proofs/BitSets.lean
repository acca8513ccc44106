/-
# A set of bits is a finite set of addresses

`AddressSet` keeps bits in blocks, tests them by masks, and walks through a block by taking its lowest
bit away.  Seen from outside it is the finite set of its members: `Represents` relates the two, each
change preserves it and gives the answer that the finite set would give (`Represents.step`), and so
does a history of changes from the empty set on (`Represents.history`).

A visit between two addresses runs the action on the members in this range, each once and in ascending
order.  This holds as well when the action takes the address that it is given out of the set, as the
recovery of a region does (`Region.recover_eq`).
-/
import ManagedHeap.Proofs.Words
import Mathlib.Data.Finset.Sort

namespace ManagedHeap

namespace AddressSet

/-! ## 1. Changes -/

/-- A change of a set. -/
inductive Change where
  | insert (a : Nat)
  | erase (a : Nat)
  | clear

namespace Change

/-- Change a set.  An insertion answers whether the address is new. -/
def run : Change → Action AddressSet (Option Bool)
  | .insert a => do
    let new ← AddressSet.insert a
    return some new
  | .erase a => do
    AddressSet.erase a
    return none
  | .clear => do
    AddressSet.clear
    return none

/-- The finite set after a change. -/
def apply : Change → Finset Nat → Finset Nat
  | .insert a, F => Insert.insert a F
  | .erase a, F => F.erase a
  | .clear, _ => ∅

/-- The answer to a change of a finite set. -/
def answer : Change → Finset Nat → Option Bool
  | .insert a, F => some (decide (a ∉ F))
  | .erase _, _ => none
  | .clear, _ => none

/-- Change a set step by step.  Gives the answers. -/
def runAll : List Change → Action AddressSet (List (Option Bool))
  | [] => return []
  | c :: rest => do
    let answer ← c.run
    let answers ← runAll rest
    return answer :: answers

/-- The finite set after changes. -/
def applyAll : List Change → Finset Nat → Finset Nat
  | [], F => F
  | c :: rest, F => applyAll rest (c.apply F)

/-- The answers to changes of a finite set. -/
def answers : List Change → Finset Nat → List (Option Bool)
  | [], _ => []
  | c :: rest, F => c.answer F :: answers rest (c.apply F)

end Change

/-- The address of a word in a range. -/
def InRange (bottom bytes a : Nat) : Prop := bottom ≤ a ∧ a < bottom + bytes ∧ 8 ∣ a

instance {bottom bytes a : Nat} : Decidable (InRange bottom bytes a) :=
  inferInstanceAs (Decidable (_ ∧ _ ∧ _))

/-- A change is one of a word in the range, or of all. -/
def Change.Within (bottom bytes : Nat) : Change → Prop
  | .insert a => InRange bottom bytes a
  | .erase a => InRange bottom bytes a
  | .clear => True

instance {bottom bytes : Nat} : (c : Change) → Decidable (c.Within bottom bytes)
  | .insert a => inferInstanceAs (Decidable (InRange bottom bytes a))
  | .erase a => inferInstanceAs (Decidable (InRange bottom bytes a))
  | .clear => inferInstanceAs (Decidable True)

/-- The members of a finite set between two addresses, in ascending order. -/
def segment (F : Finset Nat) (first last : Nat) : List Nat :=
  (F.filter fun a => first ≤ a ∧ a < last).sort

/-- The action changes the set only by taking the address that it is given out of it, if at all. -/
def MayErase {σ : Type} (load : σ → AddressSet) (visit : Nat → Action σ Unit) : Prop :=
  ∀ a t, After (visit a) t fun _ t' =>
    load t' = load t ∨ erase a (load t) = .ok () (load t')

/-- Take a member that is visited out of the set, and note it. -/
def take (a : Nat) : Action (AddressSet × List Nat) Unit := do
  (erase a).onFirst
  Action.onSecond (modify (· ++ [a]))

/-! ## 2. The finite set that is represented -/

/-- **A set represents a finite set** of words in a range. -/
structure Represents (s : AddressSet) (bottom bytes : Nat) (F : Finset Nat) : Prop where
  fits : s.Fits bottom bytes
  has : ∀ a, a ∈ F ↔ s.Has a

namespace Represents

variable {s : AddressSet} {bottom bytes a : Nat} {F : Finset Nat} {c : Change} {cs : List Change}

theorem make (h : 8 ∣ bottom) : (AddressSet.make bottom bytes).Represents bottom bytes ∅ :=
  ⟨fits_make h, fun a => by simpa using not_has_of_bits_eq_empty rfl⟩

theorem members_eq (R : s.Represents bottom bytes F) : s.members = F := by
  ext a
  rw [R.fits.mem_members, R.has]

theorem inRange (R : s.Represents bottom bytes F) (ha : a ∈ F) : InRange bottom bytes a :=
  let h := (R.has a).1 ha
  ⟨(R.fits.has_bounds h).1, (R.fits.has_bounds h).2, h.2.1⟩

theorem holds_eq (R : s.Represents bottom bytes F) (ha : InRange bottom bytes a) :
    s.holds a = decide (a ∈ F) := by
  rw [Bool.eq_iff_iff, decide_eq_true_eq, R.fits.holds_iff ha.1 ha.2.2, R.has]

theorem removing (R : s.Represents bottom bytes F) (ha : InRange bottom bytes a) :
    (s.removing a).Represents bottom bytes (F.erase a) :=
  ⟨R.fits.removing, fun b => by rw [Finset.mem_erase, R.fits.has_removing ha.1 ha.2.2, R.has]⟩

/-- **One change** is that of the finite set, and so is its answer. -/
theorem step (hbytes : 8 ∣ bytes) (R : s.Represents bottom bytes F) (hc : c.Within bottom bytes) :
    Ends c.run s fun answer s' =>
      answer = c.answer F ∧ s'.Represents bottom bytes (c.apply F) := by
  cases c with
  | insert a =>
    have hin : InRange bottom bytes a := hc
    have hcheck := R.fits.checkIndex_eq hin.1 hin.2.1 hin.2.2 hbytes
    simp only [Change.run, ends_bind, ends_insert hcheck, ends_pure, Change.answer, R.holds_eq hin,
      decide_not]
    refine ⟨trivial, R.fits.adding hin.1 hin.2.1 hin.2.2 hbytes, fun b => ?_⟩
    rw [Change.apply, Finset.mem_insert, R.fits.has_adding hin.1 hin.2.2, R.has]
  | erase a =>
    have hin : InRange bottom bytes a := hc
    have hcheck := R.fits.checkIndex_eq hin.1 hin.2.1 hin.2.2 hbytes
    simp only [Change.run, ends_bind, ends_erase hcheck, ends_pure]
    exact ⟨rfl, R.removing hin⟩
  | clear =>
    simp only [Change.run, ends_bind, ends_clear, ends_pure]
    exact ⟨rfl, R.fits.emptied, fun b => by simp [Change.apply]⟩

/-- **A history of changes**, by induction over it. -/
theorem history (hbytes : 8 ∣ bytes) (R : s.Represents bottom bytes F)
    (hcs : ∀ c ∈ cs, c.Within bottom bytes) :
    Ends (Change.runAll cs) s fun answers s' =>
      answers = Change.answers cs F ∧ s'.Represents bottom bytes (Change.applyAll cs F) := by
  induction cs generalizing s F with
  | nil => exact ends_pure.2 ⟨rfl, R⟩
  | cons c rest ih =>
    rw [List.forall_mem_cons] at hcs
    simp only [Change.runAll, ends_bind, ends_pure]
    refine (R.step hbytes hcs.1).mono fun _ s₁ h₁ => (ih h₁.2 hcs.2).mono fun _ s₂ h₂ => ⟨?_, h₂.2⟩
    rw [h₁.1, h₂.1, Change.answers]

/-! ## 3. What a visit visits -/

/-- The members in ascending order are those of the finite set. -/
theorem toList_filter_eq (R : s.Represents bottom bytes F) (first last : Nat) :
    (s.toList.filter fun a => first ≤ a ∧ a < last) = segment F first last := by
  refine (pairwise_toList.filter _).eq_of_mem_iff (Finset.sortedLT_sort _).pairwise fun a => ?_
  rw [List.mem_filter, R.fits.mem_toList, decide_eq_true_eq, segment, Finset.mem_sort,
    Finset.mem_filter, R.has]

theorem between_eq (R : s.Represents bottom bytes F) {first last : Nat}
    (hf : InRange bottom bytes first) : s.between first last = .ok (segment F first last) := by
  rw [R.fits.between_eq_filter hf.1 hf.2.2, R.toList_filter_eq]

theorem stays {σ : Type} {load : σ → AddressSet} {visit : Nat → Action σ Unit}
    (hv : MayErase load visit) : Stays load visit := fun a t => (hv a t).mono fun _ t' h => by
  rcases h with he | he
  · rw [he]
    exact ⟨rfl, fun _ _ => rfl⟩
  · rw [after_erase _ _ he]
    exact ⟨rfl, fun _ hj => block_removing_of_ne hj⟩

/-- **A visit** runs the action on each member in the range, in ascending order. -/
theorem iterate_eq {σ : Type} {load : σ → AddressSet} {visit : Nat → Action σ Unit} {t : σ}
    (hv : MayErase load visit) (R : (load t).Represents bottom bytes F) {first last : Nat}
    (hf : InRange bottom bytes first) :
    iterate load first last visit t = Action.each (segment F first last) visit t := by
  rw [iterate_eq_each (stays hv), R.between_eq hf]
  rfl

theorem mayErase_take : MayErase Prod.fst take := fun a t => by
  unfold take
  rw [after_bind]
  refine after_onPart.2 fun _ s hs => after_onPart.2 (after_modify.2 (.inr ?_))
  exact hs

/-- Members that are taken out one after the other. -/
theorem each_take (hbytes : 8 ∣ bytes) {xs seen : List Nat} (R : s.Represents bottom bytes F)
    (hxs : ∀ a ∈ xs, InRange bottom bytes a) :
    Ends (Action.each xs take) (s, seen) fun _ t =>
      t.2 = seen ++ xs ∧ t.1.Represents bottom bytes (F \ xs.toFinset) := by
  induction xs generalizing s seen F with
  | nil =>
    refine ends_pure.2 ⟨(List.append_nil _).symm, ?_⟩
    rwa [List.toFinset_nil, Finset.sdiff_empty]
  | cons a xs ih =>
    rw [List.forall_mem_cons] at hxs
    obtain ⟨hin, hxs⟩ := hxs
    have hcheck := R.fits.checkIndex_eq hin.1 hin.2.1 hin.2.2 hbytes
    simp only [Action.each, take, ends_bind, ends_onFirst, ends_onSecond, ends_erase hcheck,
      ends_modify]
    refine (ih (R.removing hin) hxs).mono fun _ t ht => ⟨?_, ?_⟩
    · rw [ht.1, List.append_assoc, List.singleton_append]
    · rw [List.toFinset_cons, Finset.sdiff_insert, ← Finset.erase_sdiff_comm]
      exact ht.2

end Represents

/-! ## 4. The set as a whole -/

/-- **A set of bits is a finite set of addresses**, after any changes of words in its range.

* Each insertion answers whether the address was not there.
* A look-up is membership, and the count is the number of members.
* A visit from a word of the range up to any address runs the action on exactly the members in
  between, each once and in ascending order, whatever else the action does, and also when it takes
  them out of the set.  A visit that takes out what it visits leaves the other members. -/
theorem finite_set {bottom bytes : Nat} (hbottom : 8 ∣ bottom) (hbytes : 8 ∣ bytes)
    {cs : List Change} (hcs : ∀ c ∈ cs, c.Within bottom bytes) :
    Ends (Change.runAll cs) (AddressSet.make bottom bytes) fun answers s =>
      answers = Change.answers cs ∅ ∧
      (∀ a, InRange bottom bytes a → s.contains a = .ok (decide (a ∈ Change.applyAll cs ∅))) ∧
      s.count = (Change.applyAll cs ∅).card ∧
      ∀ first last, InRange bottom bytes first →
        s.between first last = .ok (segment (Change.applyAll cs ∅) first last) ∧
        (∀ {σ : Type} {load : σ → AddressSet} {visit : Nat → Action σ Unit} {t : σ},
          MayErase load visit → load t = s →
          iterate load first last visit t =
            Action.each (segment (Change.applyAll cs ∅) first last) visit t) ∧
        Ends (iterate Prod.fst first last take) (s, []) fun _ t =>
          t.2 = segment (Change.applyAll cs ∅) first last ∧
          ∀ a, InRange bottom bytes a → t.1.contains a =
            .ok (decide (a ∈ Change.applyAll cs ∅ ∧ ¬ (first ≤ a ∧ a < last))) := by
  have hcontains {s : AddressSet} {F : Finset Nat} (R : s.Represents bottom bytes F) {a : Nat}
      (ha : InRange bottom bytes a) : s.contains a = .ok (decide (a ∈ F)) := by
    rw [R.fits.contains_eq ha.1 ha.2.1 ha.2.2 hbytes, R.holds_eq ha]
  refine ((Represents.make hbottom).history hbytes hcs).mono fun _ s h => ?_
  obtain ⟨hanswers, R⟩ := h
  refine ⟨hanswers, fun a => hcontains R, ?_, fun first last hf => ⟨R.between_eq hf, ?_, ?_⟩⟩
  · rw [count_eq_card, R.members_eq]
  · rintro σ load visit t hv rfl
    exact R.iterate_eq hv hf
  · have hin : ∀ a ∈ segment (Change.applyAll cs ∅) first last, InRange bottom bytes a := by
      intro a ha
      rw [segment, Finset.mem_sort, Finset.mem_filter] at ha
      exact R.inRange ha.1
    obtain ⟨_, t, ht, hlist, hset⟩ : Ends (Action.each _ take) (s, []) _ := R.each_take hbytes hin
    refine ⟨_, t, (Represents.iterate_eq Represents.mayErase_take R hf).trans ht, hlist, ?_⟩
    intro a ha
    rw [hcontains hset ha, segment, Finset.sort_toFinset]
    refine congrArg Except.ok (decide_eq_decide.2 ?_)
    rw [Finset.mem_sdiff, Finset.mem_filter]
    exact and_congr_right fun hmem => not_congr (and_iff_right hmem)

/-- Changes in two blocks, at both ends of the range. -/
def twoBlocks : List Change :=
  [.insert 4096, .insert 4096, .insert 4104, .insert 4608, .insert 5112, .erase 4104]

theorem finite_set_twoBlocks : 8 ∣ 4096 ∧ 8 ∣ 1024 ∧ (∀ c ∈ twoBlocks, c.Within 4096 1024) ∧
    Ends (Change.runAll twoBlocks) (AddressSet.make 4096 1024) fun answers s =>
      answers = [some true, some false, some true, some true, some true, none] ∧ s.count = 3 ∧
      s.contains 4104 = .ok false ∧ s.between 4104 5112 = .ok [4608] := by
  have hin : ∀ c ∈ twoBlocks, c.Within 4096 1024 := by decide
  have hword : InRange 4096 1024 4104 := by decide
  refine ⟨by decide, by decide, hin, (finite_set (by decide) (by decide) hin).mono fun _ s h => ?_⟩
  obtain ⟨hanswers, hcontains, hcount, hvisit⟩ := h
  refine ⟨hanswers.trans (by decide), hcount.trans (by decide), (hcontains _ hword).trans (by decide),
    (hvisit _ _ hword).1.trans ?_⟩
  have hfilter : ((Change.applyAll twoBlocks ∅).filter fun a => 4104 ≤ a ∧ a < 5112) = {4608} := by
    decide
  rw [segment, hfilter, Finset.sort_singleton]

end AddressSet

end ManagedHeap
