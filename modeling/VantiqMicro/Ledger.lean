import Mathlib.Algebra.Order.Group.Multiset
import VantiqMicro.Block

/-! # Who owns a block

The heap as `malloc` and `free` see it: which blocks are in use.  `Heaped` programs
allocate, use and free blocks and fault on one that is not in use.  `Turns` says what a
program makes of the blocks it is given, whatever other blocks there are: it composes
without looking at these, and a program that `Turns` has no fault. -/

namespace CMem

/-- The blocks in use, by the number of their allocation. -/
structure Ledger where
  next : Nat
  live : Multiset Nat
  fresh : ∀ p ∈ live, p < next
  nodup : live.Nodup

/-- A program that allocates and frees. -/
abbrev Heaped := StateT Ledger (Except Fault)

namespace Ledger

def empty : Ledger := ⟨0, 0, fun _ h => absurd h (Multiset.notMem_zero _), Multiset.nodup_zero⟩

/-- A block that was never in use is handed out. -/
def alloc (l : Ledger) : Nat × Ledger :=
  (l.next,
    { next := l.next + 1
      live := l.next ::ₘ l.live
      fresh := by
        intro p hp
        rcases Multiset.mem_cons.mp hp with rfl | hp
        · exact Nat.lt_succ_self _
        · exact Nat.lt_succ_of_lt (l.fresh p hp)
      nodup := Multiset.nodup_cons.mpr ⟨fun h => Nat.lt_irrefl _ (l.fresh _ h), l.nodup⟩ })

/-- The block is in use no more. -/
def release (l : Ledger) (p : Nat) : Ledger where
  next := l.next
  live := l.live.erase p
  fresh q hq := l.fresh q (Multiset.mem_of_mem_erase hq)
  nodup := l.nodup.erase p

end Ledger

/-- `malloc`, which succeeds. -/
def newBlock : Heaped Nat := fun l => .ok l.alloc

/-- Reading or writing a block. -/
def useBlock (p : Nat) : Heaped Unit := fun l =>
  if p ∈ l.live then .ok ((), l) else .error .badPointer

/-- `free` of a pointer that is not `NULL`. -/
def freeBlock (p : Nat) : Heaped Unit := fun l =>
  if p ∈ l.live then .ok ((), l.release p) else .error .badPointer

/-- `free`. -/
def freeIf : Option Nat → Heaped Unit
  | none => pure ()
  | some p => freeBlock p

/-- Given the blocks `pre`, the program returns, with `post` of what it returns and of the
blocks it leaves of them; the blocks that are not given are left as they are. -/
def Turns {α : Type} (m : Heaped α) (pre : Multiset Nat) (post : α → Multiset Nat → Prop) : Prop :=
  ∀ (l : Ledger) (others : Multiset Nat), l.live = pre + others →
    ∃ a left l', m l = .ok (a, l') ∧ post a left ∧ l'.live = left + others

namespace Turns
variable {α β : Type} {m : Heaped α} {f : α → Heaped β} {pre left more : Multiset Nat}
  {post mid : α → Multiset Nat → Prop} {post' : β → Multiset Nat → Prop} {p : Nat}

theorem pure {a : α} (h : post a pre) : Turns (pure a) pre post :=
  fun l _ hl => ⟨a, pre, l, rfl, h, hl⟩

theorem mono (h : Turns m pre mid) (hpost : ∀ a left, mid a left → post a left) :
    Turns m pre post := by
  intro l others hl
  obtain ⟨a, left, l', hrun, hmid, hl'⟩ := h l others hl
  exact ⟨a, left, l', hrun, hpost a left hmid, hl'⟩

/-- What a program is not given it leaves as it is. -/
theorem frame (h : Turns m pre post) (more : Multiset Nat) :
    Turns m (pre + more) fun a left => ∃ left', post a left' ∧ left = left' + more := by
  intro l others hl
  rw [add_assoc] at hl
  obtain ⟨a, left, l', hrun, hpost, hl'⟩ := h l (more + others) hl
  exact ⟨a, left + more, l', hrun, ⟨left, hpost, rfl⟩, by rw [hl', add_assoc]⟩

theorem seq (h : Turns m pre mid) (hf : ∀ a left, mid a left → Turns (f a) left post') :
    Turns (m >>= f) pre post' := by
  intro l others hl
  obtain ⟨a, left, l', hrun, hmid, hl'⟩ := h l others hl
  obtain ⟨b, left', l'', hrun', hpost, hl''⟩ := hf a left hmid l' others hl'
  refine ⟨b, left', l'', ?_, hpost, hl''⟩
  show (m l >>= fun r => f r.1 r.2) = _
  rw [hrun, ok_bind, hrun']

/-- A step of which is known what it leaves. -/
theorem step {f : Unit → Heaped β} {m : Heaped Unit} (h : Turns m pre fun _ left' => left' = left)
    (hf : Turns (f ()) left post') : Turns (m >>= f) pre post' :=
  h.seq fun _ _ hleft => hleft ▸ hf

theorem map {f : α → β} (h : Turns m pre mid) (hpost : ∀ a left, mid a left → post' (f a) left) :
    Turns (f <$> m) pre post' := by
  rw [← bind_pure_comp]
  exact h.seq fun a left hmid => Turns.pure (hpost a left hmid)

/-- A call is given some of the blocks. -/
theorem call (h : Turns m pre mid) (hgiven : left = pre + more)
    (hf : ∀ a left', mid a left' → Turns (f a) (left' + more) post') :
    Turns (m >>= f) left post' := by
  subst hgiven
  refine (h.frame more).seq ?_
  rintro a _ ⟨left', hmid, rfl⟩
  exact hf a left' hmid

theorem newBlock (pre : Multiset Nat) : Turns newBlock pre fun p left => left = {p} + pre := by
  intro l others hl
  refine ⟨l.next, {l.next} + pre, l.alloc.2, rfl, rfl, ?_⟩
  show l.next ::ₘ l.live = _
  rw [hl, ← Multiset.singleton_add, Multiset.add_assoc]

theorem useBlock (hp : p ∈ pre) : Turns (useBlock p) pre fun _ left => left = pre := by
  intro l others hl
  refine ⟨(), pre, l, if_pos ?_, rfl, hl⟩
  rw [hl]
  exact Multiset.mem_add.mpr (Or.inl hp)

variable (left) in
theorem freeBlock (hp : pre = {p} + left) :
    Turns (freeBlock p) pre fun _ left' => left' = left := by
  intro l others hl
  rw [hp, Multiset.add_assoc, Multiset.singleton_add] at hl
  refine ⟨(), left, l.release p, if_pos ?_, rfl, ?_⟩
  · rw [hl]
    exact Multiset.mem_cons_self _ _
  · show l.live.erase p = _
    rw [hl, Multiset.erase_cons_head]

variable (left) in
/-- `q` may be `NULL`. -/
theorem freeIf {q : Option Nat} (hq : pre = (q.elim 0 fun p => {p}) + left) :
    Turns (freeIf q) pre fun _ left' => left' = left := by
  cases q with
  | none => exact Turns.pure (hq.trans (Multiset.zero_add left))
  | some p => exact Turns.freeBlock left hq

/-- What a run that returned left. -/
theorem of_ok (h : Turns m pre post) {l l' : Ledger} {others : Multiset Nat} {a : α}
    (hl : l.live = pre + others) (hrun : m l = .ok (a, l')) :
    ∃ left, post a left ∧ l'.live = left + others := by
  obtain ⟨a', left, l'', hrun', hpost, hl'⟩ := h l others hl
  rw [hrun] at hrun'
  cases hrun'
  exact ⟨left, hpost, hl'⟩

end Turns

end CMem
