import VectorMachine.Proofs.Cell
import VectorMachine.Proofs.Processor.Frame
import Mathlib.Data.List.Infix

namespace VectorMachine

inductive StackOp where
  | push (w : Word)
  | pop
  deriving DecidableEq, Repr

namespace StackOp

def isPush : StackOp → Bool
  | .push _ => true
  | .pop => false

def isPop : StackOp → Bool
  | .push _ => false
  | .pop => true

def act (words : List Word) : StackOp → List Word
  | .push w => w :: words
  | .pop => words.tail

def outstanding (ops : List StackOp) : List Word := ops.foldl act []

def pushes (ops : List StackOp) : Nat := ops.countP isPush

def pops (ops : List StackOp) : Nat := ops.countP isPop

def Grounded (ops : List StackOp) : Prop :=
  ∀ before, before <+: ops → pops before ≤ pushes before

def Within (room : Nat) (ops : List StackOp) : Prop :=
  ∀ before, before <+: ops → pushes before ≤ pops before + room

def Closed (ops : List StackOp) : Prop :=
  Grounded ops ∧ pops ops = pushes ops

instance (ops : List StackOp) : Decidable (Grounded ops) :=
  decidable_of_iff (∀ before ∈ ops.inits, pops before ≤ pushes before) (by simp [Grounded])

instance (room : Nat) (ops : List StackOp) : Decidable (Within room ops) :=
  decidable_of_iff (∀ before ∈ ops.inits, pushes before ≤ pops before + room) (by simp [Within])

instance (ops : List StackOp) : Decidable (Closed ops) :=
  inferInstanceAs (Decidable (_ ∧ _))

section Counts

variable {first rest ops between : List StackOp} {op : StackOp} {w : Word}

theorem outstanding_concat (ops : List StackOp) (op : StackOp) :
    outstanding (ops ++ [op]) = act (outstanding ops) op :=
  List.foldl_concat ..

theorem pushes_append (first rest : List StackOp) :
    pushes (first ++ rest) = pushes first + pushes rest :=
  List.countP_append

theorem pops_append (first rest : List StackOp) : pops (first ++ rest) = pops first + pops rest :=
  List.countP_append

theorem pushes_push (w : Word) (ops : List StackOp) : pushes (.push w :: ops) = pushes ops + 1 :=
  List.countP_cons_of_pos rfl

theorem pops_push (w : Word) (ops : List StackOp) : pops (.push w :: ops) = pops ops :=
  List.countP_cons_of_neg Bool.false_ne_true

theorem pushes_pop (ops : List StackOp) : pushes (.pop :: ops) = pushes ops :=
  List.countP_cons_of_neg Bool.false_ne_true

theorem pops_pop (ops : List StackOp) : pops (.pop :: ops) = pops ops + 1 :=
  List.countP_cons_of_pos rfl

theorem pushes_nil : pushes [] = 0 := rfl

theorem pops_nil : pops [] = 0 := rfl

theorem Grounded.before (h : Grounded ops) (hp : first <+: ops) : Grounded first :=
  fun before hb => h before (hb.trans hp)

theorem Within.before {room : Nat} (h : Within room ops) (hp : first <+: ops) :
    Within room first :=
  fun before hb => h before (hb.trans hp)

theorem length_outstanding (h : Grounded ops) :
    (outstanding ops).length + pops ops = pushes ops := by
  induction ops using List.reverseRecOn with
  | nil => rfl
  | append_singleton ops op ih =>
      have hlen := ih (h.before (List.prefix_append ops [op]))
      have hall := h _ (List.prefix_refl _)
      rw [outstanding_concat]
      simp only [pops_append, pushes_append] at hall ⊢
      cases op with
      | push w =>
          simp only [act, List.length_cons, pops_push, pushes_push, pops_nil, pushes_nil]
          omega
      | pop =>
          simp only [pops_pop, pushes_pop, pops_nil, pushes_nil] at hall ⊢
          rw [act, List.length_tail]
          omega

theorem outstanding_ne_nil (h : Grounded (ops ++ [.pop])) : outstanding ops ≠ [] := by
  have hlen := length_outstanding (h.before (List.prefix_append ops [.pop]))
  have hall := h _ (List.prefix_refl _)
  simp only [pops_append, pushes_append, pops_pop, pushes_pop, pops_nil, pushes_nil] at hall
  rw [← List.length_pos_iff]
  omega

theorem foldl_act (h : Grounded ops) (words : List Word) :
    ops.foldl act words = outstanding ops ++ words := by
  induction ops using List.reverseRecOn with
  | nil => rfl
  | append_singleton ops op ih =>
      rw [List.foldl_concat, outstanding_concat, ih (h.before (List.prefix_append ops [op]))]
      cases op with
      | push w => rfl
      | pop => exact List.tail_append_of_ne_nil (outstanding_ne_nil h)

theorem Closed.outstanding_eq_nil (h : Closed ops) : outstanding ops = [] := by
  have hlen := length_outstanding h.1
  have hall := h.2
  rw [← List.length_eq_zero_iff]
  omega

theorem Closed.foldl_act_eq (h : Closed ops) (words : List Word) : ops.foldl act words = words := by
  rw [foldl_act h.1, h.outstanding_eq_nil, List.nil_append]

theorem outstanding_of_closed (h : Closed between) (before : List StackOp) (w : Word) :
    outstanding (before ++ .push w :: between) = w :: outstanding before := by
  rw [outstanding, List.foldl_append, List.foldl_cons, h.foldl_act_eq]
  rfl

theorem closed_nil : Closed [] := by decide

theorem Closed.append (hf : Closed first) (hr : Closed rest) : Closed (first ++ rest) := by
  constructor
  · rintro before ⟨tail, ht⟩
    rcases List.append_eq_append_iff.1 ht with ⟨gap, rfl, -⟩ | ⟨after, rfl, rfl⟩
    · exact hf.1 before (List.prefix_append before gap)
    · have hafter := hr.1 after (List.prefix_append after tail)
      have hfirst := hf.2
      rw [pops_append, pushes_append]
      omega
  · rw [pops_append, pushes_append, hf.2, hr.2]

theorem Closed.nest (h : Closed between) (w : Word) :
    Closed (.push w :: (between ++ [.pop])) := by
  have hend : pops (between ++ [.pop]) = pushes (between ++ [.pop]) + 1 := by
    rw [pops_append, pushes_append, h.2]
    rfl
  constructor
  · intro before hb
    cases before with
    | nil => exact Nat.le_refl 0
    | cons op before =>
        obtain ⟨rfl, hrest⟩ := List.cons_prefix_cons.1 hb
        rw [pushes_push, pops_push]
        rcases List.prefix_concat_iff.1 hrest with rfl | hrest
        · exact Nat.le_of_eq hend
        · exact Nat.le_succ_of_le (h.1 before hrest)
  · exact (pops_push ..).trans (hend.trans (pushes_push ..).symm)

theorem exists_open_push (h : Grounded ops) (hopen : pops ops < pushes ops) :
    ∃ before w between, ops = before ++ .push w :: between ∧ Closed between := by
  induction hn : ops.length using Nat.strongRecOn generalizing ops with
  | ind n ih =>
      subst hn
      rcases List.eq_nil_or_concat' ops with rfl | ⟨rest, op, rfl⟩
      · cases hopen
      · rw [List.length_append] at ih
        have hrest := h.before (List.prefix_append rest [op])
        simp only [pops_append, pushes_append] at hopen
        cases op with
        | push w => exact ⟨rest, w, [], rfl, closed_nil⟩
        | pop =>
            simp only [pops_pop, pushes_pop, pops_nil, pushes_nil] at hopen
            -- The pop takes the last open push of `rest`; what was open before that push is sought.
            obtain ⟨inner, x, block, rfl, hblock⟩ :=
              ih rest.length (Nat.lt_succ_self _) hrest (by omega) rfl
            have hinner : pops inner < pushes inner := by
              have hb := hblock.2
              simp only [pops_append, pushes_append, pops_push, pushes_push] at hopen
              omega
            have hlen : inner.length < (inner ++ .push x :: block).length + 1 := by
              rw [List.length_append]
              omega
            obtain ⟨before, w, between, rfl, hbetween⟩ :=
              ih inner.length hlen (hrest.before (List.prefix_append _ _)) hinner rfl
            refine ⟨before, w, between ++ .push x :: (block ++ [.pop]), ?_,
              hbetween.append (hblock.nest x)⟩
            simp only [List.append_assoc, List.cons_append]

end Counts

end StackOp

namespace Processor

def stackStep (p : Processor) : StackOp → Processor
  | .push w => p.push w
  | .pop => p.drop

def stacked (p : Processor) (ops : List StackOp) : Processor := ops.foldl stackStep p

structure Stacks (p : Processor) (words : List Word) : Prop where
  length_le : words.length ≤ 256
  get : ∀ k w, words[k]? = some w → p.memory.get (p.sp.offset (k + 1)) = w

section Stacks

variable {p q : Processor} {words : List Word}

theorem stacks_nil (p : Processor) : Stacks p [] := by
  refine ⟨Nat.zero_le _, fun k w h => ?_⟩
  cases h

theorem Stacks.congr (h : Stacks p words) (hm : q.memory = p.memory) (hsp : q.sp = p.sp) :
    Stacks q words := by
  refine ⟨h.length_le, fun k w hw => ?_⟩
  rw [hm, hsp]
  exact h.get k w hw

theorem Stacks.top_eq {w : Word} (h : Stacks p (w :: words)) : p.top = w :=
  h.get 0 w rfl

theorem Stacks.push (h : Stacks p words) (hroom : words.length < 256) (w : Word) :
    Stacks (p.push w) (w :: words) := by
  refine ⟨hroom, fun k x hx => ?_⟩
  cases k with
  | zero =>
      obtain rfl : w = x := Option.some.inj hx
      change (VectorUnit.put p.sp w p.memory).get (p.sp.pred.offset 1) = w
      rw [Cell.pred_offset_one]
      exact Vector.getElem_set_self _
  | succ k =>
      rw [List.getElem?_cons_succ] at hx
      have hk : k < words.length := (List.getElem?_eq_some_iff.1 hx).1
      have hcell : p.sp.pred.offset (k + 1 + 1) = p.sp.offset (k + 1) := by
        rw [Nat.add_comm (k + 1) 1, ← Cell.offset_offset, Cell.pred_offset_one]
      -- On a full stack the pushed word would go over the oldest one.
      have hne : p.sp.offset 0 ≠ p.sp.offset (k + 1) := p.sp.offset_ne (by omega) (by omega)
      rw [Cell.offset_zero] at hne
      change (VectorUnit.put p.sp w p.memory).get (p.sp.pred.offset (k + 1 + 1)) = x
      rw [hcell, ← h.get k x hx]
      exact VectorUnit.get_put_of_ne hne.symm w p.memory

theorem Stacks.drop (h : Stacks p words) : Stacks p.drop words.tail := by
  refine ⟨Nat.le_trans (List.length_tail ▸ Nat.sub_le _ 1) h.length_le, fun k w hw => ?_⟩
  rw [List.getElem?_tail] at hw
  have hcell : (p.sp.offset 1).offset (k + 1) = p.sp.offset (k + 1 + 1) := by
    rw [Cell.offset_offset, Nat.add_comm 1 (k + 1)]
  change p.memory.get ((p.sp.offset 1).offset (k + 1)) = w
  rw [hcell]
  exact h.get (k + 1) w hw

theorem Stacks.step (h : Stacks p words) {op : StackOp} (hroom : (op.act words).length ≤ 256) :
    Stacks (p.stackStep op) (op.act words) := by
  cases op with
  | push w => exact h.push hroom w
  | pop => exact h.drop

end Stacks

def depth (p : Processor) (c : PrimaryCell) : Nat := (p.sp.val + 256 - c.val) % 256

open StackOp in
structure Refines (p : Processor) (ops : List StackOp) : Prop where
  length : (outstanding ops).length + pops ops = pushes ops
  sp : ((p.stacked ops).sp.val : Int) = (p.sp.val - (outstanding ops).length) % 256
  get : ∀ k w, (outstanding ops)[k]? = some w →
    (p.stacked ops).memory.get ((p.stacked ops).sp.offset (k + 1)) = w
  unreached : ∀ c, (∀ before, before <+: ops → (outstanding before).length ≤ p.depth c) →
    (p.stacked ops).memory.get c = p.memory.get c

section Refines

open StackOp

variable {p : Processor} {ops : List StackOp} {op : StackOp}

theorem stacked_concat (p : Processor) (ops : List StackOp) (op : StackOp) :
    p.stacked (ops ++ [op]) = (p.stacked ops).stackStep op :=
  List.foldl_concat ..

theorem length_outstanding_le (h : Grounded ops) {room : Nat} (hw : Within room ops) :
    (outstanding ops).length ≤ room := by
  have hlen := length_outstanding h
  have hall := hw _ (List.prefix_refl _)
  omega

theorem stacks_stacked (p : Processor) (h : Grounded ops) (hw : Within 256 ops) :
    Stacks (p.stacked ops) (outstanding ops) := by
  induction ops using List.reverseRecOn with
  | nil => exact stacks_nil p
  | append_singleton ops op ih =>
      have hp := List.prefix_append ops [op]
      have hlen := length_outstanding_le h hw
      rw [outstanding_concat] at hlen ⊢
      rw [stacked_concat]
      exact (ih (h.before hp) (hw.before hp)).step hlen

theorem sp_stacked (p : Processor) (h : Grounded ops) :
    ((p.stacked ops).sp.val : Int) = (p.sp.val - (outstanding ops).length) % 256 := by
  induction ops using List.reverseRecOn with
  | nil =>
      have hsp := p.sp.isLt
      change (p.sp.val : Int) = (p.sp.val - ((0 : Nat) : Int)) % 256
      omega
  | append_singleton ops op ih =>
      have hsp := ih (h.before (List.prefix_append ops [op]))
      rw [stacked_concat, outstanding_concat]
      cases op with
      | push w =>
          have hpred := Cell.intCast_val_pred (p.stacked ops).sp
          change ((p.stacked ops).sp.pred.val : Int) = _
          rw [hpred, act, List.length_cons]
          omega
      | pop =>
          have hpos := List.length_pos_iff.2 (outstanding_ne_nil h)
          have hnext := Cell.intCast_val_offset_one (p.stacked ops).sp
          change (((p.stacked ops).sp.offset 1).val : Int) = _
          rw [hnext, act, List.length_tail]
          omega

theorem get_stacked_of_unreached (h : Grounded ops) {c : PrimaryCell}
    (hc : ∀ before, before <+: ops → (outstanding before).length ≤ p.depth c) :
    (p.stacked ops).memory.get c = p.memory.get c := by
  induction ops using List.reverseRecOn with
  | nil => rfl
  | append_singleton ops op ih =>
      have hp := List.prefix_append ops [op]
      have hfirst := ih (h.before hp) fun before hb => hc before (hb.trans hp)
      rw [stacked_concat]
      cases op with
      | pop => exact hfirst
      | push w =>
          have hlen := hc _ (List.prefix_refl _)
          have hsp := sp_stacked p (h.before hp)
          have hlt := c.isLt
          rw [outstanding_concat, act, List.length_cons, depth] at hlen
          have hne : c.val ≠ (p.stacked ops).sp.val := by omega
          exact (VectorUnit.get_put_of_ne (mt (congrArg Fin.val) hne) w _).trans hfirst

theorem refines (p : Processor) (h : Grounded ops) (hw : Within 256 ops) : Refines p ops where
  length := length_outstanding h
  sp := sp_stacked p h
  get := (stacks_stacked p h hw).get
  unreached _ := get_stacked_of_unreached h

theorem top_stacked (h : Grounded ops) (hw : Within 256 ops) {before between : List StackOp}
    {w : Word} (hops : ops = before ++ .push w :: between) (hb : Closed between) :
    (p.stacked ops).top = w := by
  have hs := stacks_stacked p h hw
  rw [hops, outstanding_of_closed hb, ← hops] at hs
  exact hs.top_eq

end Refines

end Processor

end VectorMachine
