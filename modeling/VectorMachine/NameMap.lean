namespace VectorMachine

structure NameMap (α : Type) where
  entries : List (String × α)
  ordered : entries.Pairwise fun a b => a.1 < b.1
  deriving DecidableEq, Repr

namespace NameMap

variable {α : Type}

def empty : NameMap α := ⟨[], .nil⟩

instance : Inhabited (NameMap α) := ⟨empty⟩

def find? (m : NameMap α) (name : String) : Option α :=
  (m.entries.find? fun e => e.1 == name).map Prod.snd

def place (name : String) (value : α) : List (String × α) → List (String × α)
  | [] => [(name, value)]
  | e :: es =>
      if name < e.1 then (name, value) :: e :: es
      else if name = e.1 then (name, value) :: es
      else e :: place name value es

theorem mem_place {name : String} {value : α} {e : String × α} :
    ∀ {es : List (String × α)}, e ∈ place name value es → e = (name, value) ∨ e ∈ es := by
  intro es
  induction es with
  | nil => intro h; simpa [place] using h
  | cons d ds ih =>
      intro h
      unfold place at h
      split at h
      · simpa using h
      · split at h
        · simp only [List.mem_cons] at h ⊢
          rcases h with h | h
          · exact .inl h
          · exact .inr (.inr h)
        · simp only [List.mem_cons] at h ⊢
          rcases h with h | h
          · exact .inr (.inl h)
          · rcases ih h with h | h
            · exact .inl h
            · exact .inr (.inr h)

theorem place_ordered (name : String) (value : α) :
    ∀ {es : List (String × α)}, es.Pairwise (fun a b => a.1 < b.1) →
      (place name value es).Pairwise fun a b => a.1 < b.1 := by
  intro es
  induction es with
  | nil => intro _; simp [place]
  | cons d ds ih =>
      intro h
      have hd := List.pairwise_cons.1 h
      unfold place
      split
      · rename_i hlt
        refine List.pairwise_cons.2 ⟨?_, h⟩
        intro e he
        rcases List.mem_cons.1 he with rfl | he
        · exact hlt
        · exact String.lt_trans hlt (hd.1 e he)
      · rename_i hnlt
        split
        · rename_i heq
          refine List.pairwise_cons.2 ⟨?_, hd.2⟩
          intro e he
          simpa [heq] using hd.1 e he
        · rename_i hne
          refine List.pairwise_cons.2 ⟨?_, ih hd.2⟩
          intro e he
          rcases mem_place he with rfl | he
          · exact String.not_le.1 fun hle => hne (String.le_antisymm hle (String.not_lt.1 hnlt))
          · exact hd.1 e he

theorem find?_place (name other : String) (value : α) (es : List (String × α)) :
    (place name value es).find? (fun e => e.1 == other) =
      if other = name then some (name, value) else es.find? fun e => e.1 == other := by
  by_cases h : other = name
  · subst h
    rw [if_pos rfl]
    induction es with
    | nil => simp [place]
    | cons d ds ih =>
        unfold place
        split
        · simp
        · split
          · simp
          · rename_i hne
            have hd : (d.1 == other) = false := by simpa using fun e => hne e.symm
            simp only [List.find?_cons, hd, ih]
  · have hn : (name == other) = false := by simpa using fun e => h e.symm
    rw [if_neg h]
    induction es with
    | nil => simp [place, hn]
    | cons d ds ih =>
        unfold place
        split
        · simp only [List.find?_cons, hn]
        · split
          · rename_i heq
            simp only [List.find?_cons, hn, ← heq]
          · simp only [List.find?_cons, ih]

def insert (m : NameMap α) (name : String) (value : α) : NameMap α :=
  ⟨place name value m.entries, place_ordered name value m.ordered⟩

theorem find?_insert (m : NameMap α) (name other : String) (value : α) :
    (m.insert name value).find? other = if other = name then some value else m.find? other := by
  simp only [find?, insert, find?_place]
  split <;> rfl

def ofList (es : List (String × α)) : NameMap α :=
  es.foldl (fun m e => m.insert e.1 e.2) empty

def insertNew (m : NameMap α) (name : String) (value : α) : NameMap α :=
  if (m.find? name).isSome then m else m.insert name value

theorem find?_insertNew (m : NameMap α) (name other : String) (value : α) :
    (m.insertNew name value).find? other =
      (m.find? other).or (if other = name then some value else none) := by
  unfold insertNew
  split
  · rename_i h
    by_cases he : other = name
    · subst he
      obtain ⟨v, hv⟩ := Option.isSome_iff_exists.1 h
      simp [hv]
    · simp [he]
  · rename_i h
    rw [find?_insert]
    by_cases he : other = name
    · subst he
      have hn : m.find? other = none := by simpa using h
      simp [hn]
    · simp [he]

def mapValues {β : Type} (f : α → β) (m : NameMap α) : NameMap β :=
  ⟨m.entries.map fun e => (e.1, f e.2), by simpa [List.pairwise_map] using m.ordered⟩

end NameMap

end VectorMachine
