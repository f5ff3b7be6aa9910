import ClassSelection.Table.Scope
import Mathlib.Data.List.Nodup

/-!
# Histories of a scope stack

A scope stack is used through its handles: whoever opens a scope holds the
handle, and an attempt to close a scope takes the handle away, even if it is
refused.  `ScopeStack.Follows` is any history of such calls.  The open scopes
are always those of the history that have been opened and not closed
(`Follows.scopes_eq`), each lying on the stack from before it was opened
(`Follows.exists_before`).
-/

namespace ClassSelection

inductive ScopeEvent where
  | opened (scope : Scope)
  /-- The handle of a scope has been used, and has closed it. -/
  | closed (scope : Scope)
  /-- A handle has been used, and was refused. -/
  | refused (handle : ScopeHandle)
  deriving DecidableEq, Repr

/-! ## What a history tells, the latest event first -/

namespace ScopeEvent

def issued : List ScopeEvent → List ScopeHandle
  | [] => []
  | opened scope :: earlier => scope.handle :: issued earlier
  | closed _ :: earlier => issued earlier
  | refused _ :: earlier => issued earlier

def used : List ScopeEvent → List ScopeHandle
  | [] => []
  | opened _ :: earlier => used earlier
  | closed scope :: earlier => scope.handle :: used earlier
  | refused handle :: earlier => handle :: used earlier

def held : List ScopeEvent → List ScopeHandle
  | [] => []
  | opened scope :: earlier => scope.handle :: held earlier
  | closed scope :: earlier => (held earlier).erase scope.handle
  | refused handle :: earlier => (held earlier).erase handle

def unclosed : List ScopeEvent → List Scope
  | [] => []
  | opened scope :: earlier => scope :: unclosed earlier
  | closed scope :: earlier => (unclosed earlier).erase scope
  | refused _ :: earlier => unclosed earlier

theorem held_subset_issued (history : List ScopeEvent) : held history ⊆ issued history := by
  induction history with
  | nil => exact List.Subset.refl _
  | cons event earlier ih =>
      cases event with
      | opened scope => exact List.cons_subset_cons _ ih
      | closed scope => exact List.Subset.trans List.erase_subset ih
      | refused handle => exact List.Subset.trans List.erase_subset ih

theorem mem_used_of_closed {history : List ScopeEvent} {scope : Scope}
    (h : .closed scope ∈ history) : scope.handle ∈ used history := by
  induction history with
  | nil => cases h
  | cons event earlier ih =>
      rcases List.mem_cons.1 h with rfl | hearlier
      · exact List.mem_cons_self
      · cases event with
        | opened scope => exact ih hearlier
        | closed scope => exact List.mem_cons_of_mem _ (ih hearlier)
        | refused handle => exact List.mem_cons_of_mem _ (ih hearlier)

end ScopeEvent

open ScopeEvent

namespace ScopeStack

variable {stack after : ScopeStack} {handle : ScopeHandle} {guard : Alternatives}
  {history : List ScopeEvent}

theorem pop_eq_some_iff :
    stack.pop handle = (some guard, after) ↔
      stack.scopes = ⟨handle, guard⟩ :: after.scopes ∧ after.fresh = stack.fresh := by
  obtain ⟨scopes, fresh⟩ := stack
  obtain ⟨uncovered, fresh'⟩ := after
  cases scopes with
  | nil => simp [pop]
  | cons top others =>
      obtain ⟨topHandle, topGuard⟩ := top
      by_cases h : topHandle = handle
      · simp only [pop, h, if_true, Option.some.injEq, Prod.mk.injEq, mk.injEq, List.cons.injEq,
          Scope.mk.injEq, true_and]
        constructor
        · rintro ⟨rfl, rfl, rfl⟩
          exact ⟨⟨rfl, rfl⟩, rfl⟩
        · rintro ⟨⟨rfl, rfl⟩, rfl⟩
          exact ⟨rfl, rfl, rfl⟩
      · simp [pop, h]

theorem pop_eq_none (h : ∀ scope ∈ stack.scopes, scope.handle ≠ handle) :
    stack.pop handle = (none, stack) := by
  cases hscopes : stack.scopes with
  | nil => simp only [pop, hscopes]
  | cons top others =>
      have htop : top.handle ≠ handle := h top (by simp [hscopes])
      simp only [pop, hscopes, if_neg htop]

theorem eq_of_pop_eq_none (h : stack.pop handle = (none, after)) : after = stack := by
  unfold pop at h
  split at h
  · exact (Prod.mk.inj h).2.symm
  · split at h
    · cases (Prod.mk.inj h).1
    · exact (Prod.mk.inj h).2.symm

structure SameScopes (stack other : ScopeStack) : Prop where
  scopes : stack.scopes = other.scopes
  depth : stack.depth = other.depth
  flatten (mode : CombineMode) : stack.flatten mode = other.flatten mode

theorem sameScopes_of_eq {other : ScopeStack} (h : stack.scopes = other.scopes) :
    stack.SameScopes other where
  scopes := h
  depth := by rw [depth, depth, h]
  flatten mode := by rw [flatten, flatten, guards, guards, h]

/-- The calls of a history lead from the empty stack to this one.  A handle is used by those who
hold it, in any order. -/
inductive Follows : List ScopeEvent → ScopeStack → Prop
  | start : Follows [] .empty
  | push {history : List ScopeEvent} {stack after : ScopeStack} {handle : ScopeHandle}
      {guard : Alternatives} (h : Follows history stack)
      (hpush : stack.push guard = (handle, after)) :
      Follows (.opened ⟨handle, guard⟩ :: history) after
  | pop {history : List ScopeEvent} {stack after : ScopeStack} {handle : ScopeHandle}
      {guard : Alternatives} (h : Follows history stack) (hheld : handle ∈ held history)
      (hpop : stack.pop handle = (some guard, after)) :
      Follows (.closed ⟨handle, guard⟩ :: history) after
  | refuse {history : List ScopeEvent} {stack after : ScopeStack} {handle : ScopeHandle}
      (h : Follows history stack) (hheld : handle ∈ held history)
      (hpop : stack.pop handle = (none, after)) :
      Follows (.refused handle :: history) after

namespace Follows

theorem unique {other : ScopeStack} (h : Follows history stack) (h' : Follows history other) :
    stack = other := by
  induction h generalizing other with
  | start =>
      cases h'
      rfl
  | push _ hpush ih =>
      cases h' with
      | push h' hpush' =>
          obtain rfl := ih h'
          exact (Prod.mk.inj (hpush.symm.trans hpush')).2
  | pop _ _ hpop ih =>
      cases h' with
      | pop h' _ hpop' =>
          obtain rfl := ih h'
          exact (Prod.mk.inj (hpop.symm.trans hpop')).2
  | refuse _ _ hpop ih =>
      cases h' with
      | refuse h' _ hpop' =>
          obtain rfl := ih h'
          exact (Prod.mk.inj (hpop.symm.trans hpop')).2

/-! ## Handles -/

/-- The handles are given out in the order of their serials. -/
theorem issued_eq (h : Follows history stack) :
    issued history = (List.range stack.fresh.serial).reverse.map ScopeHandle.mk := by
  induction h with
  | start => rfl
  | push _ hpush ih =>
      obtain ⟨rfl, rfl⟩ := Prod.mk.inj hpush
      simp [issued, ih, List.range_succ]
  | pop _ _ hpop ih => rw [issued, ih, (pop_eq_some_iff.1 hpop).2]
  | refuse _ _ hpop ih => rw [issued, ih, eq_of_pop_eq_none hpop]

theorem serial_lt (h : Follows history stack) (hissued : handle ∈ issued history) :
    handle.serial < stack.fresh.serial := by
  rw [h.issued_eq] at hissued
  simp only [List.mem_map, List.mem_reverse, List.mem_range] at hissued
  obtain ⟨serial, hlt, rfl⟩ := hissued
  exact hlt

theorem length_issued (h : Follows history stack) :
    (issued history).length = stack.fresh.serial := by
  simp [h.issued_eq]

theorem pairwise_issued (h : Follows history stack) :
    (issued history).Pairwise fun late early => early.serial < late.serial := by
  rw [h.issued_eq, List.pairwise_map, List.pairwise_reverse]
  exact List.pairwise_lt_range

theorem nodup_issued (h : Follows history stack) : (issued history).Nodup := by
  refine h.pairwise_issued.imp ?_
  rintro late early hlt rfl
  exact Nat.lt_irrefl _ hlt

theorem fresh_notMem_issued (h : Follows history stack) : stack.fresh ∉ issued history :=
  fun hissued => Nat.lt_irrefl _ (h.serial_lt hissued)

theorem nodup_held (h : Follows history stack) : (held history).Nodup := by
  induction h with
  | start => exact List.nodup_nil
  | push h hpush ih =>
      obtain ⟨rfl, rfl⟩ := Prod.mk.inj hpush
      exact List.nodup_cons.2 ⟨fun hheld => h.fresh_notMem_issued (held_subset_issued _ hheld), ih⟩
  | pop _ _ _ ih => exact ih.erase _
  | refuse _ _ _ ih => exact ih.erase _

theorem used_subset_issued (h : Follows history stack) : used history ⊆ issued history := by
  induction h with
  | start => exact List.Subset.refl _
  | push _ _ ih => exact List.Subset.trans ih (List.subset_cons_self _ _)
  | @pop history _ _ _ _ _ hheld _ ih =>
      exact List.cons_subset.2 ⟨held_subset_issued history hheld, ih⟩
  | @refuse history _ _ _ _ hheld _ ih =>
      exact List.cons_subset.2 ⟨held_subset_issued history hheld, ih⟩

/-- A handle that has been used is not held, and never will be. -/
theorem disjoint_used_held (h : Follows history stack) :
    (used history).Disjoint (held history) := by
  -- a handle that is used up is erased once, which is enough because it was held once
  have hspent {history : List ScopeEvent} {stack : ScopeStack} (h : Follows history stack)
      (ih : (used history).Disjoint (held history)) (handle : ScopeHandle) :
      (handle :: used history).Disjoint ((held history).erase handle) := by
    rw [List.disjoint_cons_left]
    exact ⟨h.nodup_held.not_mem_erase, List.disjoint_of_subset_right List.erase_subset ih⟩
  induction h with
  | start => exact List.disjoint_nil_left _
  | push h hpush ih =>
      obtain ⟨rfl, rfl⟩ := Prod.mk.inj hpush
      rw [used, held, List.disjoint_cons_right]
      exact ⟨fun hused => h.fresh_notMem_issued (h.used_subset_issued hused), ih⟩
  | pop h _ _ ih => exact hspent h ih _
  | refuse h _ _ ih => exact hspent h ih _

theorem nodup_used (h : Follows history stack) : (used history).Nodup := by
  induction h with
  | start => exact List.nodup_nil
  | push _ _ ih => exact ih
  | pop h hheld _ ih => exact List.nodup_cons.2 ⟨fun hused => h.disjoint_used_held hused hheld, ih⟩
  | refuse h hheld _ ih =>
      exact List.nodup_cons.2 ⟨fun hused => h.disjoint_used_held hused hheld, ih⟩

/-! ## Open scopes -/

theorem scopes_eq (h : Follows history stack) : stack.scopes = unclosed history := by
  induction h with
  | start => rfl
  | push _ hpush ih =>
      obtain ⟨rfl, rfl⟩ := Prod.mk.inj hpush
      simp [unclosed, ← ih]
  | pop _ _ hpop ih => rw [unclosed, ← ih, (pop_eq_some_iff.1 hpop).1, List.erase_cons_head]
  | refuse _ _ hpop ih => rw [unclosed, ← ih, eq_of_pop_eq_none hpop]

theorem scopes_sublist (h : Follows history stack) :
    (stack.scopes.map Scope.handle).Sublist (issued history) := by
  induction h with
  | start => exact List.Sublist.refl _
  | push _ hpush ih =>
      obtain ⟨rfl, rfl⟩ := Prod.mk.inj hpush
      exact ih.cons_cons _
  | pop _ _ hpop ih =>
      rw [(pop_eq_some_iff.1 hpop).1, List.map_cons] at ih
      exact (List.sublist_cons_self _ _).trans ih
  | refuse _ _ hpop ih =>
      obtain rfl := eq_of_pop_eq_none hpop
      exact ih

/-- Every open scope lies on the stack from before it was opened. -/
theorem exists_before (h : Follows history stack) {above below : List Scope} {scope : Scope}
    (hscopes : stack.scopes = above ++ scope :: below) :
    ∃ later earlier before, history = later ++ .opened scope :: earlier ∧
      Follows earlier before ∧ before.scopes = below := by
  induction h generalizing above with
  | start => simp [empty] at hscopes
  | @push history stack _ _ guard h hpush ih =>
      obtain ⟨rfl, rfl⟩ := Prod.mk.inj hpush
      cases above with
      | nil =>
          obtain ⟨rfl, hbelow⟩ := List.cons.inj hscopes
          exact ⟨[], history, stack, rfl, h, hbelow⟩
      | cons top above =>
          obtain ⟨later, earlier, before, rfl, hbefore⟩ := ih (List.cons.inj hscopes).2
          exact ⟨_ :: later, earlier, before, rfl, hbefore⟩
  | @pop _ _ _ handle guard _ _ hpop ih =>
      have habove := (pop_eq_some_iff.1 hpop).1
      rw [hscopes, ← List.cons_append] at habove
      obtain ⟨later, earlier, before, rfl, hbefore⟩ := ih habove
      exact ⟨_ :: later, earlier, before, rfl, hbefore⟩
  | refuse _ _ hpop ih =>
      obtain rfl := eq_of_pop_eq_none hpop
      obtain ⟨later, earlier, before, rfl, hbefore⟩ := ih hscopes
      exact ⟨_ :: later, earlier, before, rfl, hbefore⟩

theorem nodup_handles (h : Follows history stack) : (stack.scopes.map Scope.handle).Nodup :=
  h.nodup_issued.sublist h.scopes_sublist

theorem ne_of_closed (h : Follows history stack) {scope : Scope}
    (hclosed : .closed scope ∈ history) : ∀ other ∈ stack.scopes, other.handle ≠ scope.handle := by
  induction h with
  | start => cases hclosed
  | push h hpush ih =>
      obtain ⟨rfl, rfl⟩ := Prod.mk.inj hpush
      have hearlier := (List.mem_cons.1 hclosed).resolve_left (by simp)
      intro other hother
      rcases List.mem_cons.1 hother with rfl | hother
      · intro hsame
        have hused := h.used_subset_issued (mem_used_of_closed hearlier)
        rw [← hsame] at hused
        exact h.fresh_notMem_issued hused
      · exact ih hearlier other hother
  | pop h _ hpop ih =>
      have hscopes := (pop_eq_some_iff.1 hpop).1
      intro other hother
      rcases List.mem_cons.1 hclosed with hlast | hearlier
      · obtain rfl := ScopeEvent.closed.inj hlast
        have hnodup := h.nodup_handles
        rw [hscopes, List.map_cons, List.nodup_cons] at hnodup
        intro hsame
        exact hnodup.1 (hsame ▸ List.mem_map_of_mem hother)
      · exact ih hearlier other (hscopes ▸ List.mem_cons_of_mem _ hother)
  | refuse _ _ hpop ih =>
      obtain rfl := eq_of_pop_eq_none hpop
      exact ih ((List.mem_cons.1 hclosed).resolve_left (by simp))

end Follows

/-! ## The protocol -/

structure Protocol (history : List ScopeEvent) (stack : ScopeStack) : Prop where
  /-- The calls decide what the stack is. -/
  determined (other : ScopeStack) (h : Follows history other) : other = stack
  /-- A handle closes a scope exactly if this is the latest one of those that have been opened and
  not closed; what comes back is the guard with which it was opened. -/
  closes_iff (handle : ScopeHandle) (guard : Alternatives) :
    (∃ after, stack.pop handle = (some guard, after)) ↔
      (unclosed history).head? = some ⟨handle, guard⟩
  /-- Closing a scope uncovers the stack as it was before the scope was opened. -/
  uncovers (handle : ScopeHandle) (guard : Alternatives) (after : ScopeStack)
    (h : stack.pop handle = (some guard, after)) :
    ∃ later earlier before, history = later ++ .opened ⟨handle, guard⟩ :: earlier ∧
      Follows earlier before ∧ after.SameScopes before
  /-- A handle that is refused leaves everything as it was. -/
  refuses (handle : ScopeHandle) (after : ScopeStack) (h : stack.pop handle = (none, after)) :
    after.SameScopes stack ∧ after.fresh = stack.fresh
  nodup_issued : (issued history).Nodup
  /-- Serials count the pushes, so that 64 bits hold them for fewer than `2 ^ 64` of these. -/
  serial_eq : stack.fresh.serial = (issued history).length
  serial_lt : ∀ handle ∈ issued history, handle.serial < (issued history).length
  /-- From the bottom to the top the serials increase. -/
  ascending : (stack.scopes.reverse.map fun scope => scope.handle.serial).Pairwise (· < ·)
  /-- No handle is used twice, for none can be had again. -/
  used_once : (used history).Nodup ∧ (used history).Disjoint (held history)
  /-- A handle that has closed its scope would be refused, whatever has been opened since. -/
  closed_refused : ∀ scope, .closed scope ∈ history → (stack.pop scope.handle).1 = none

theorem protocol_of_follows (h : Follows history stack) : stack.Protocol history where
  determined other hother := hother.unique h
  closes_iff handle guard := by
    rw [← h.scopes_eq]
    constructor
    · rintro ⟨after, hpop⟩
      rw [(pop_eq_some_iff.1 hpop).1, List.head?_cons]
    · intro hhead
      obtain ⟨others, hscopes⟩ := List.head?_eq_some_iff.1 hhead
      exact ⟨⟨others, stack.fresh⟩, pop_eq_some_iff.2 ⟨hscopes, rfl⟩⟩
  uncovers handle guard after hpop := by
    have hscopes : stack.scopes = [] ++ ⟨handle, guard⟩ :: after.scopes :=
      (pop_eq_some_iff.1 hpop).1
    obtain ⟨later, earlier, before, hhistory, hbefore, hsame⟩ := h.exists_before hscopes
    exact ⟨later, earlier, before, hhistory, hbefore, sameScopes_of_eq hsame.symm⟩
  refuses handle after hpop := by
    obtain rfl := eq_of_pop_eq_none hpop
    exact ⟨sameScopes_of_eq rfl, rfl⟩
  nodup_issued := h.nodup_issued
  serial_eq := h.length_issued.symm
  serial_lt handle hissued := h.length_issued ▸ h.serial_lt hissued
  ascending := by
    have hpairwise := h.pairwise_issued.sublist h.scopes_sublist
    rw [List.pairwise_map] at hpairwise
    rw [List.pairwise_map, List.pairwise_reverse]
    exact hpairwise
  used_once := ⟨h.nodup_used, h.disjoint_used_held⟩
  closed_refused scope hclosed := by rw [pop_eq_none (h.ne_of_closed hclosed)]

/-- Equal guards do not bring a handle back: the outer scope is refused inside the inner one, the
inner one is closed, and its handle does not fit the scope that is opened in its place. -/
theorem protocol_of_equalGuards :
    let guard : Alternatives := [⟨[⟨"&A", .eq, "1"⟩]⟩]
    let history : List ScopeEvent := [.opened ⟨⟨2⟩, guard⟩, .closed ⟨⟨1⟩, guard⟩, .refused ⟨0⟩,
      .opened ⟨⟨1⟩, guard⟩, .opened ⟨⟨0⟩, guard⟩]
    let stack : ScopeStack := ⟨[⟨⟨2⟩, guard⟩, ⟨⟨0⟩, guard⟩], ⟨3⟩⟩
    Follows history stack ∧ (stack.pop ⟨1⟩).1 = none ∧
      (∃ after, stack.pop ⟨2⟩ = (some guard, after)) := by
  intro guard history stack
  have hopened : Follows [.opened ⟨⟨1⟩, guard⟩, .opened ⟨⟨0⟩, guard⟩]
      ⟨[⟨⟨1⟩, guard⟩, ⟨⟨0⟩, guard⟩], ⟨2⟩⟩ := .push (.push .start rfl) rfl
  have hclosed : Follows history.tail ⟨[⟨⟨0⟩, guard⟩], ⟨2⟩⟩ :=
    .pop (.refuse hopened (by decide) rfl) (by decide) rfl
  have hfollows : Follows history stack := .push hclosed rfl
  have hprotocol := protocol_of_follows hfollows
  exact ⟨hfollows, hprotocol.closed_refused ⟨⟨1⟩, guard⟩ (by simp [history]),
    (hprotocol.closes_iff ⟨2⟩ guard).2 rfl⟩

end ScopeStack

end ClassSelection
