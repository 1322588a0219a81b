import VectorMachine.Proofs.Instruction.Tokens
import VectorMachine.Proofs.Text.Layout

namespace VectorMachine.Instruction

open Text (Layout)

theorem tokens_layout (l : Layout separates) :
    tokens (String.ofList l.text) = l.words.map String.ofList := by
  rw [tokens, String.toList_ofList, l.fields_text]

theorem exists_layout (text : String) : ∃ l : Layout separates,
    String.ofList l.text = text ∧ l.words.map String.ofList = tokens text := by
  obtain ⟨l, htext, hwords⟩ := Text.fields_eq_iff.1 (Eq.refl (Text.fields separates text.toList))
  exact ⟨l, by rw [htext, String.ofList_toList], by rw [hwords, tokens]⟩

theorem whole_of_mem_tokens {text token : String} (h : token ∈ tokens text) : Whole token := by
  obtain ⟨word, hword, rfl⟩ := List.mem_map.1 h
  obtain ⟨hpiece, hne⟩ := List.mem_filter.1 hword
  rw [Whole, String.toList_ofList]
  exact ⟨by simpa using hne, Text.not_sep_of_mem_pieces hpiece⟩

theorem decode_eq_of_tokens_eq {first second : String} (h : tokens first = tokens second) :
    decode first = decode second := by
  rw [decode, decode, h]

theorem tokens_ignore_spacing :
    (∀ l : Layout separates, tokens (String.ofList l.text) = l.words.map String.ofList) ∧
      (∀ text, (∀ token ∈ tokens text, Whole token) ∧
        (∃ l : Layout separates, String.ofList l.text = text ∧
          l.words.map String.ofList = tokens text) ∧
        (tokens text = [] ↔ ∀ c ∈ text.toList, separates c = true)) ∧
      ∀ first second, tokens first = tokens second → decode first = decode second := by
  refine ⟨tokens_layout, fun text => ?_, fun _ _ h => decode_eq_of_tokens_eq h⟩
  exact ⟨fun _ h => whole_of_mem_tokens h, exists_layout text, tokens_eq_nil_iff⟩

def strewn : Layout separates where
  front := [' ', '\u3000']
  row :=
    [(['a', 'd', 'd'], [',', '\t']), (['R', '0'], ['\u00a0', ',', '\u2003']), (['-', '5'], [','])]
  front_sep := by simp [separates, Text.isBlank, Text.blankRanges]
  spaced := by
    refine .cons ?_ ?_ ?_ ?_ (.cons ?_ ?_ ?_ ?_ (.cons ?_ ?_ ?_ ?_ .nil))
    all_goals simp [separates, Text.isBlank, Text.blankRanges]

theorem tokens_ignore_spacing_strewn :
    tokens (String.ofList strewn.text) = ["add", "R0", "-5"] ∧
      tokens (String.ofList strewn.text) = tokens "add R0 -5" ∧
      decode (String.ofList strewn.text) = decode "add R0 -5" := by
  have hstrewn : tokens (String.ofList strewn.text) = ["add", "R0", "-5"] :=
    tokens_ignore_spacing.1 strewn
  have hplain : tokens "add R0 -5" = ["add", "R0", "-5"] := rfl
  have hsame := hstrewn.trans hplain.symm
  exact ⟨hstrewn, hsame, tokens_ignore_spacing.2.2 _ _ hsame⟩

end VectorMachine.Instruction
