import VectorMachine.Listeners

namespace VectorMachine.Listeners

variable {ε : Type}

inductive Operation (ε : Type) where
  | subscribe (recipient : Nat)
  | unsubscribe (id : ListenerId)
  | emit (event : ε)
  deriving DecidableEq, Repr

namespace Operation

def subscribes : Operation ε → Bool
  | .subscribe _ => true
  | _ => false

def removes (id : ListenerId) : Operation ε → Bool
  | .unsubscribe other => other == id
  | _ => false

def event? : Operation ε → Option ε
  | .emit event => some event
  | _ => none

end Operation

inductive Answer (ε : Type) where
  | issued (id : ListenerId)
  | removed (found : Bool)
  | delivered (deliveries : List (Nat × ε))
  deriving DecidableEq, Repr

def perform (ls : Listeners) : Operation ε → Answer ε × Listeners
  | .subscribe recipient => (.issued (ls.subscribe recipient).1, (ls.subscribe recipient).2)
  | .unsubscribe id => (.removed (ls.unsubscribe id).1, (ls.unsubscribe id).2)
  | .emit event => (.delivered (ls.deliver event), ls)

def answers (ls : Listeners) : List (Operation ε) → List (Answer ε)
  | [] => []
  | op :: rest => (ls.perform op).1 :: (ls.perform op).2.answers rest

def after (ls : Listeners) (ops : List (Operation ε)) : Listeners :=
  ops.foldl (fun ls op => (ls.perform op).2) ls

def log (ls : Listeners) : List (Operation ε) → List (Listener × ε)
  | [] => []
  | op :: rest =>
      op.event?.toList.flatMap (fun event => ls.registered.map fun l => (l, event)) ++
        (ls.perform op).2.log rest

def Answer.deliveries : Answer ε → List (Nat × ε)
  | .delivered ds => ds
  | _ => []

def receivedBy (l : Listener) (deliveries : List (Listener × ε)) : List ε :=
  (deliveries.filter fun d => d.1 = l).map Prod.snd

def Subscribed (ops : List (Operation ε)) (place : Nat) (l : Listener) : Prop :=
  ops[place]? = some (.subscribe l.recipient) ∧ (answers {} ops)[place]? = some (.issued l.id)

/-- Subscribed at one place, and not removed before another. -/
def Standing (ops : List (Operation ε)) (place now : Nat) (l : Listener) : Prop :=
  place < now ∧ Subscribed ops place l ∧
    ∀ k, place < k → k < now → ops[k]? ≠ some (.unsubscribe l.id)

def InOrder (ops : List (Operation ε)) (now : Nat) (listeners : List Listener) : Prop :=
  (∀ l, l ∈ listeners ↔ ∃ place, Standing ops place now l) ∧
    listeners.Pairwise fun l m => ∃ i j, i < j ∧ Subscribed ops i l ∧ Subscribed ops j m

structure Heard (ops : List (Operation ε)) : Prop where
  received : ∀ place l, Subscribed ops place l →
    receivedBy l (log {} ops) =
      ((ops.drop (place + 1)).takeWhile fun op => !op.removes l.id).filterMap Operation.event?
  deliveries : (answers {} ops).flatMap Answer.deliveries =
    (log {} ops).map fun d => (d.1.recipient, d.2)
  emitted : ∀ now event, ops[now]? = some (.emit event) →
    ∃ listeners, InOrder ops now listeners ∧
      (answers {} ops)[now]? = some (.delivered (listeners.map fun l => (l.recipient, event)))
  removed : ∀ now id, ops[now]? = some (.unsubscribe id) →
    ∃ found, (answers {} ops)[now]? = some (.removed found) ∧
      (found = true ↔ ∃ place l, Standing ops place now l ∧ l.id = id) ∧
      ∀ place l, Standing ops place (now + 1) l ↔ Standing ops place now l ∧ l.id ≠ id
  registered : ∀ now, now ≤ ops.length → InOrder ops now (after {} (ops.take now)).registered
  issued : ∀ place recipient, ops[place]? = some (.subscribe recipient) →
    ∃ l, l.recipient = recipient ∧ Subscribed ops place l
  issued_once : ∀ i j l m, Subscribed ops i l → Subscribed ops j m → l.id = m.id → i = j
  issued_below : ∀ place l, Subscribed ops place l → l.id < ops.countP Operation.subscribes
  heard : (after {} ops).heard = true ↔ ∃ place l, Standing ops place ops.length l

structure Ascending (ls : Listeners) : Prop where
  sorted : ls.registered.Pairwise fun l m => l.id < m.id
  below : ∀ l ∈ ls.registered, l.id < ls.nextId

section Perform

variable {ls : Listeners} {op : Operation ε} {l : Listener}

theorem mem_registered_perform : l ∈ (ls.perform op).2.registered ↔
    l ∈ ls.registered ∧ op.removes l.id = false ∨
      op = .subscribe l.recipient ∧ l.id = ls.nextId := by
  cases op with
  | subscribe r =>
      simp only [perform, subscribe, List.mem_append, List.mem_singleton, Operation.removes,
        and_true, Operation.subscribe.injEq]
      constructor
      · rintro (h | rfl)
        · exact .inl h
        · exact .inr ⟨rfl, rfl⟩
      · rintro (h | ⟨rfl, hid⟩)
        · exact .inl h
        · exact .inr (by cases l; cases hid; rfl)
  | unsubscribe id =>
      have hid : (l.id != id) = true ↔ (id == l.id) = false := by
        rw [bne_iff_ne, beq_eq_false_iff_ne, ne_comm]
      simp only [perform, unsubscribe, List.mem_filter, Operation.removes, hid, reduceCtorEq,
        false_and, or_false]
  | emit e => simp [perform, Operation.removes]

theorem nextId_perform : (ls.perform op).2.nextId = ls.nextId + op.subscribes.toNat := by
  cases op <;> rfl

theorem Ascending.perform (h : ls.Ascending) (op : Operation ε) : (ls.perform op).2.Ascending := by
  constructor
  case sorted =>
    cases op with
    | subscribe r =>
        refine List.pairwise_append.2 ⟨h.sorted, List.pairwise_singleton _ _, ?_⟩
        intro l hl m hm
        obtain rfl := List.mem_singleton.1 hm
        exact h.below l hl
    | unsubscribe id => exact h.sorted.filter _
    | emit e => exact h.sorted
  case below =>
    intro l hl
    rw [nextId_perform]
    rcases mem_registered_perform.1 hl with ⟨hl, -⟩ | ⟨rfl, hid⟩
    · exact Nat.lt_add_right _ (h.below l hl)
    · rw [hid]
      exact Nat.lt_succ_self _

theorem Ascending.after (h : ls.Ascending) (ops : List (Operation ε)) :
    (ls.after ops).Ascending := by
  induction ops generalizing ls with
  | nil => exact h
  | cons op rest ih => exact ih (h.perform op)

theorem nextId_after (ls : Listeners) (ops : List (Operation ε)) :
    (ls.after ops).nextId = ls.nextId + ops.countP Operation.subscribes := by
  induction ops generalizing ls with
  | nil => rfl
  | cons op rest ih =>
      rw [show ls.after (op :: rest) = (ls.perform op).2.after rest from rfl, ih, nextId_perform,
        List.countP_cons]
      cases op.subscribes <;> simp [Nat.add_assoc, Nat.add_comm]

end Perform

theorem ascending_new : Ascending {} := ⟨.nil, List.forall_mem_nil _⟩

section Log

variable {ls : Listeners} {l : Listener} {ops : List (Operation ε)}

theorem log_append (ls : Listeners) (xs ys : List (Operation ε)) :
    ls.log (xs ++ ys) = ls.log xs ++ (ls.after xs).log ys := by
  induction xs generalizing ls with
  | nil => rfl
  | cons op rest ih =>
      rw [List.cons_append, log, log, ih, List.append_assoc]
      rfl

theorem receivedBy_append (l : Listener) (xs ys : List (Listener × ε)) :
    receivedBy l (xs ++ ys) = receivedBy l xs ++ receivedBy l ys := by
  simp only [receivedBy, List.filter_append, List.map_append]

theorem receivedBy_eq_nil {ds : List (Listener × ε)} (h : ∀ d ∈ ds, d.1 ≠ l) :
    receivedBy l ds = [] := by
  rw [receivedBy, List.map_eq_nil_iff, List.filter_eq_nil_iff]
  exact fun d hd => by simpa using h d hd

theorem mem_log_cons {op : Operation ε} {d : Listener × ε} (h : d ∈ ls.log (op :: ops)) :
    d.1 ∈ ls.registered ∨ d ∈ (ls.perform op).2.log ops := by
  rcases List.mem_append.1 h with h | h
  · obtain ⟨event, -, h⟩ := List.mem_flatMap.1 h
    obtain ⟨m, hm, rfl⟩ := List.mem_map.1 h
    exact .inl hm
  · exact .inr h

theorem id_lt_of_mem_log (h : ls.Ascending) {d : Listener × ε} (hd : d ∈ ls.log ops) :
    d.1.id < (ls.after ops).nextId := by
  induction ops generalizing ls with
  | nil => cases hd
  | cons op rest ih =>
      rcases mem_log_cons hd with hd | hd
      · rw [nextId_after]
        exact Nat.lt_add_right _ (h.below _ hd)
      · exact ih (h.perform op) hd

theorem ne_of_mem_log (h : l.id < ls.nextId) (hl : l ∉ ls.registered) {d : Listener × ε}
    (hd : d ∈ ls.log ops) : d.1 ≠ l := by
  induction ops generalizing ls with
  | nil => cases hd
  | cons op rest ih =>
      rcases mem_log_cons hd with hd | hd
      · exact fun he => hl (he ▸ hd)
      · refine ih (nextId_perform ▸ Nat.lt_add_right _ h) (fun hmem => ?_) hd
        rcases mem_registered_perform.1 hmem with ⟨hmem, -⟩ | ⟨-, hid⟩
        · exact hl hmem
        · exact absurd hid (Nat.ne_of_lt h)

theorem receivedBy_handed (h : ls.Ascending) (hl : l ∈ ls.registered) (event : ε) :
    receivedBy l (ls.registered.map fun m => (m, event)) = [event] := by
  have hnodup : ls.registered.Nodup := h.sorted.imp fun hlt he => Nat.ne_of_lt hlt (congrArg _ he)
  have hone : ls.registered.filter (fun m => m = l) = [l] := by
    rw [List.filter_eq, hnodup.count, if_pos hl, List.replicate_one]
  simp only [receivedBy, List.filter_map, Function.comp_def, hone, List.map_cons, List.map_nil]

theorem receivedBy_log (h : ls.Ascending) (hl : l ∈ ls.registered) :
    receivedBy l (ls.log ops) =
      (ops.takeWhile fun op => !op.removes l.id).filterMap Operation.event? := by
  induction ops generalizing ls with
  | nil => rfl
  | cons op rest ih =>
      cases hr : op.removes l.id with
      | true =>
          have hout : l ∉ (ls.perform op).2.registered := fun hmem => by
            rcases mem_registered_perform.1 hmem with ⟨-, hkeep⟩ | ⟨-, hid⟩
            · rw [hr] at hkeep
              cases hkeep
            · exact Nat.ne_of_lt (h.below l hl) hid
          have hbelow : l.id < (ls.perform op).2.nextId :=
            nextId_perform ▸ Nat.lt_add_right _ (h.below l hl)
          have hevent : op.event? = none := by
            cases op <;> first | rfl | cases hr
          rw [log, hevent, List.takeWhile_cons, hr, receivedBy_append,
            receivedBy_eq_nil fun d hd => ne_of_mem_log hbelow hout hd]
          rfl
      | false =>
          have hstay := mem_registered_perform.2 (.inl ⟨hl, hr⟩)
          rw [log, receivedBy_append, ih (h.perform op) hstay, List.takeWhile_cons, hr]
          cases op with
          | emit event =>
              simp only [Operation.event?, Option.toList_some, List.flatMap_singleton,
                receivedBy_handed h hl]
              rfl
          | _ => rfl

end Log

section History

variable {ops : List (Operation ε)} {op : Operation ε} {l m : Listener} {i j now : Nat}

theorem getElem?_answers (ls : Listeners) (ops : List (Operation ε)) (now : Nat) :
    (ls.answers ops)[now]? =
      ops[now]?.map fun op => ((ls.after (ops.take now)).perform op).1 := by
  induction ops generalizing ls now with
  | nil => rfl
  | cons op rest ih =>
      cases now with
      | zero => rfl
      | succ now => exact ih (ls.perform op).2 now

theorem after_take_succ (ls : Listeners) (h : ops[now]? = some op) :
    ls.after (ops.take (now + 1)) = ((ls.after (ops.take now)).perform op).2 := by
  rw [List.take_add_one, h, Option.toList_some, after, List.foldl_append]
  rfl

theorem subscribed_iff : Subscribed ops i l ↔
    ops[i]? = some (.subscribe l.recipient) ∧ l.id = (after {} (ops.take i)).nextId := by
  rw [Subscribed, getElem?_answers]
  refine and_congr_right fun h => ?_
  rw [h, Option.map_some, Option.some.injEq]
  exact Answer.issued.injEq _ _ ▸ eq_comm

theorem Subscribed.id_eq (h : Subscribed ops i l) :
    l.id = (ops.take i).countP Operation.subscribes :=
  (subscribed_iff.1 h).2.trans ((nextId_after {} _).trans (Nat.zero_add _))

theorem Subscribed.id_lt_countP (h : Subscribed ops i l) (hij : i < j) :
    l.id < (ops.take j).countP Operation.subscribes := by
  have hbegins : ops.take (i + 1) <+: ops.take j := List.take_prefix_take_left hij
  have hle : (ops.take (i + 1)).countP Operation.subscribes ≤
      (ops.take j).countP Operation.subscribes := hbegins.sublist.countP_le
  rw [List.take_add_one, h.1, List.countP_append] at hle
  rw [h.id_eq]
  exact Nat.lt_of_succ_le hle

theorem Subscribed.id_lt (h : Subscribed ops i l) (hm : Subscribed ops j m) (hij : i < j) :
    l.id < m.id :=
  hm.id_eq ▸ h.id_lt_countP hij

theorem Subscribed.place_eq (h : Subscribed ops i l) (hm : Subscribed ops j m)
    (hid : l.id = m.id) : i = j := by
  rcases Nat.lt_trichotomy i j with hij | hij | hji
  · exact absurd hid (Nat.ne_of_lt (h.id_lt hm hij))
  · exact hij
  · exact absurd hid.symm (Nat.ne_of_lt (hm.id_lt h hji))

theorem Subscribed.place_lt (h : Subscribed ops i l) (hm : Subscribed ops j m)
    (hid : l.id < m.id) : i < j := by
  rcases Nat.lt_trichotomy i j with hij | rfl | hji
  · exact hij
  · exact absurd (h.id_eq.trans hm.id_eq.symm) (Nat.ne_of_lt hid)
  · exact absurd hid (Nat.lt_asymm (hm.id_lt h hji))

theorem standing_succ : Standing ops i (now + 1) l ↔
    Standing ops i now l ∧ ops[now]? ≠ some (.unsubscribe l.id) ∨
      i = now ∧ Subscribed ops now l := by
  constructor
  · rintro ⟨hlt, hsub, hkeep⟩
    rcases Nat.lt_succ_iff_lt_or_eq.1 hlt with hlt | rfl
    · exact .inl ⟨⟨hlt, hsub, fun k hik hk => hkeep k hik (Nat.lt_succ_of_lt hk)⟩,
        hkeep now hlt (Nat.lt_succ_self now)⟩
    · exact .inr ⟨rfl, hsub⟩
  · rintro (⟨⟨hlt, hsub, hkeep⟩, hnow⟩ | ⟨rfl, hsub⟩)
    · refine ⟨Nat.lt_succ_of_lt hlt, hsub, fun k hik hk => ?_⟩
      rcases Nat.lt_succ_iff_lt_or_eq.1 hk with hk | rfl
      · exact hkeep k hik hk
      · exact hnow
    · exact ⟨Nat.lt_succ_self i, hsub, fun k hik hk => by omega⟩

theorem mem_registered_iff (h : now ≤ ops.length) :
    l ∈ (after {} (ops.take now)).registered ↔ ∃ i, Standing ops i now l := by
  induction now with
  | zero =>
      refine iff_of_false List.not_mem_nil ?_
      rintro ⟨i, hlt, -⟩
      exact Nat.not_lt_zero i hlt
  | succ now ih =>
      obtain ⟨op, hop⟩ : ∃ op, ops[now]? = some op := ⟨_, List.getElem?_eq_getElem h⟩
      have hremoves : op.removes l.id = false ↔ ops[now]? ≠ some (.unsubscribe l.id) := by
        rw [hop]
        cases op <;> simp [Operation.removes]
      have hsubscribes : op = .subscribe l.recipient ∧
          l.id = (after {} (ops.take now)).nextId ↔ Subscribed ops now l := by
        rw [subscribed_iff, hop, Option.some.injEq]
      rw [after_take_succ _ hop, mem_registered_perform, ih (Nat.le_of_lt h), hremoves, hsubscribes]
      simp only [standing_succ, exists_or, exists_and_right, exists_eq, true_and]

theorem inOrder_registered (h : now ≤ ops.length) :
    InOrder ops now (after {} (ops.take now)).registered := by
  refine ⟨fun l => mem_registered_iff h, ?_⟩
  refine (ascending_new.after (ops.take now)).sorted.imp_of_mem ?_
  intro l m hl hm hid
  obtain ⟨i, -, hi, -⟩ := (mem_registered_iff h).1 hl
  obtain ⟨j, -, hj, -⟩ := (mem_registered_iff h).1 hm
  exact ⟨i, j, hi.place_lt hj hid, hi, hj⟩

theorem receivedBy_history (h : Subscribed ops i l) :
    receivedBy l (log {} ops) =
      ((ops.drop (i + 1)).takeWhile fun op => !op.removes l.id).filterMap Operation.event? := by
  obtain ⟨hop, hid⟩ := subscribed_iff.1 h
  obtain ⟨hlt, hget⟩ := List.getElem?_eq_some_iff.1 hop
  have hbefore := ascending_new.after (ops.take i)
  have hjoin : l ∈
      ((after {} (ops.take i)).perform (.subscribe l.recipient : Operation ε)).2.registered :=
    mem_registered_perform.2 (.inr ⟨rfl, hid⟩)
  have hsplit : ops = ops.take i ++ .subscribe l.recipient :: ops.drop (i + 1) := by
    rw [← hget, List.getElem_cons_drop, List.take_append_drop]
  have hearlier : receivedBy l (log {} (ops.take i)) = [] :=
    receivedBy_eq_nil fun d hd he =>
      Nat.lt_irrefl _ (hid ▸ he ▸ id_lt_of_mem_log ascending_new hd)
  rw [hsplit, log_append, receivedBy_append, ← hsplit, hearlier, log]
  exact receivedBy_log (hbefore.perform _) hjoin

theorem deliveries_answers (ls : Listeners) (ops : List (Operation ε)) :
    (ls.answers ops).flatMap Answer.deliveries =
      (ls.log ops).map fun d => (d.1.recipient, d.2) := by
  induction ops generalizing ls with
  | nil => rfl
  | cons op rest ih =>
      rw [answers, log, List.flatMap_cons, List.map_append, ih]
      cases op with
      | emit event =>
          simp [Operation.event?, perform, Answer.deliveries, deliver, recipients]
      | _ => rfl

theorem isRegistered_iff (ls : Listeners) (id : ListenerId) :
    ls.isRegistered id = true ↔ ∃ l, l ∈ ls.registered ∧ l.id = id := by
  simp only [isRegistered, List.any_eq_true, beq_iff_eq]

theorem heard_iff (ls : Listeners) : ls.heard = true ↔ ∃ l, l ∈ ls.registered := by
  rw [heard, Bool.not_eq_true', List.isEmpty_eq_false_iff, ne_eq, List.eq_nil_iff_forall_not_mem,
    Classical.not_forall_not]

end History

theorem listeners_hear_their_span (ops : List (Operation ε)) : Heard ops := by
  constructor
  case received => exact fun place l h => receivedBy_history h
  case deliveries => exact deliveries_answers {} ops
  case emitted =>
    intro now event hop
    have hnow : now ≤ ops.length := Nat.le_of_lt (List.getElem?_eq_some_iff.1 hop).1
    refine ⟨_, inOrder_registered hnow, ?_⟩
    rw [getElem?_answers, hop]
    simp [perform, deliver, recipients]
  case removed =>
    intro now id hop
    have hnow : now ≤ ops.length := Nat.le_of_lt (List.getElem?_eq_some_iff.1 hop).1
    refine ⟨_, by rw [getElem?_answers, hop]; rfl, ?_, ?_⟩
    · refine (isRegistered_iff _ id).trans ?_
      simp only [mem_registered_iff hnow]
      constructor
      · rintro ⟨l, ⟨place, h⟩, hid⟩
        exact ⟨place, l, h, hid⟩
      · rintro ⟨place, l, h, hid⟩
        exact ⟨l, ⟨place, h⟩, hid⟩
    · intro place l
      have hne : ¬ Subscribed ops now l := fun h => by
        cases hop.symm.trans h.1
      rw [standing_succ, hop]
      simp [hne, eq_comm]
  case registered => exact fun now h => inOrder_registered h
  case issued =>
    intro place recipient hop
    exact ⟨⟨_, recipient⟩, rfl, subscribed_iff.2 ⟨hop, rfl⟩⟩
  case issued_once => exact fun i j l m hl hm hid => hl.place_eq hm hid
  case issued_below =>
    intro place l h
    have hlt := h.id_lt_countP (List.getElem?_eq_some_iff.1 h.1).1
    rwa [List.take_length] at hlt
  case heard =>
    have hmem (l : Listener) :
        l ∈ (after {} ops).registered ↔ ∃ place, Standing ops place ops.length l := by
      rw [← mem_registered_iff (Nat.le_refl _), List.take_length]
    rw [heard_iff]
    simp only [hmem]
    exact exists_comm

example : log {} [.subscribe 5, .emit 'a', .subscribe 5, .emit 'b', .unsubscribe 0, .emit 'c'] =
    [(⟨0, 5⟩, 'a'), (⟨0, 5⟩, 'b'), (⟨1, 5⟩, 'b'), (⟨1, 5⟩, 'c')] := by decide

end VectorMachine.Listeners
