import VectorMachine.NameMap

namespace VectorMachine.NameMap

variable {α β : Type}

theorem find?_eq_some_of_mem {es : List (String × α)} (h : es.Pairwise fun a b => a.1 < b.1)
    {e : String × α} (he : e ∈ es) : (es.find? fun d => d.1 == e.1) = some e := by
  induction es with
  | nil => cases he
  | cons d ds ih =>
      obtain ⟨hd, hds⟩ := List.pairwise_cons.1 h
      rcases List.mem_cons.1 he with rfl | he
      · exact List.find?_cons_of_pos (by simp)
      · have hne : d.1 ≠ e.1 := String.ne_of_lt (hd e he)
        rw [List.find?_cons_of_neg (by simpa using hne)]
        exact ih hds he

theorem mem_entries_iff {m : NameMap α} {name : String} {value : α} :
    (name, value) ∈ m.entries ↔ m.find? name = some value := by
  rw [find?, Option.map_eq_some_iff]
  constructor
  · intro h
    exact ⟨_, find?_eq_some_of_mem m.ordered h, rfl⟩
  · rintro ⟨e, he, rfl⟩
    have hname : e.1 = name := by simpa using List.find?_some he
    exact hname ▸ List.mem_of_find?_eq_some he

theorem nodup_entries (m : NameMap α) : m.entries.Nodup := by
  refine m.ordered.imp ?_
  rintro a b hab rfl
  exact String.lt_irrefl a.1 hab

theorem eq_of_entries {m n : NameMap α} (h : m.entries = n.entries) : m = n := by
  cases m
  cases n
  cases h
  rfl

theorem eq_of_find? {m n : NameMap α} (h : ∀ name, m.find? name = n.find? name) : m = n := by
  have hmem : ∀ e, e ∈ m.entries ↔ e ∈ n.entries := fun e => by
    rw [mem_entries_iff, mem_entries_iff, h]
  have hperm := (List.perm_ext_iff_of_nodup m.nodup_entries n.nodup_entries).2 hmem
  have hentries : m.entries = n.entries :=
    hperm.eq_of_pairwise (fun a b _ _ hab hba => absurd hba (String.lt_asymm hab)) m.ordered
      n.ordered
  exact eq_of_entries hentries

theorem place_of_forall_lt {name : String} {es : List (String × α)} (h : ∀ e ∈ es, e.1 < name)
    (value : α) : place name value es = es ++ [(name, value)] := by
  induction es with
  | nil => rfl
  | cons e es ih =>
      obtain ⟨he, hes⟩ := List.forall_mem_cons.1 h
      have hne : name ≠ e.1 := fun heq => String.lt_irrefl name (heq ▸ he)
      rw [place, if_neg (String.lt_asymm he), if_neg hne, ih hes, List.cons_append]

theorem entries_foldl_insert {es : List (String × α)} (m : NameMap α)
    (h : (m.entries ++ es).Pairwise fun a b => a.1 < b.1) :
    (es.foldl (fun m e => m.insert e.1 e.2) m).entries = m.entries ++ es := by
  induction es generalizing m with
  | nil => exact (List.append_nil _).symm
  | cons e es ih =>
      have hlt : ∀ d ∈ m.entries, d.1 < e.1 := fun d hd =>
        (List.pairwise_append.1 h).2.2 d hd e List.mem_cons_self
      have hentries : (m.insert e.1 e.2).entries = m.entries ++ [e] :=
        place_of_forall_lt hlt e.2
      rw [List.foldl_cons, ih, hentries, List.append_assoc, List.singleton_append]
      rwa [hentries, List.append_assoc]

theorem ofList_entries (m : NameMap α) : ofList m.entries = m := by
  apply eq_of_entries
  exact entries_foldl_insert empty m.ordered

theorem find?_mapValues (f : α → β) (m : NameMap α) (name : String) :
    (m.mapValues f).find? name = (m.find? name).map f := by
  simp only [find?, mapValues, List.find?_map, Function.comp_def, Option.map_map]

end VectorMachine.NameMap
