import VectorMachine.Json.Basic

namespace VectorMachine.Json

inductive Token where
  | leftBrace
  | rightBrace
  | leftBracket
  | rightBracket
  | comma
  | colon
  | null
  | bool (b : Bool)
  | number (lexeme : String)
  | string (text : Option String)
  deriving DecidableEq, Repr

inductive Piece where
  | char (c : Char)
  | unit (n : Nat)
  deriving DecidableEq, Repr

def isHighHalf (n : Nat) : Bool := 0xD800 ≤ n && n < 0xDC00

def isLowHalf (n : Nat) : Bool := 0xDC00 ≤ n && n < 0xE000

/-- The text of a literal. A high half has to be followed by a low half, and together they name
one character. -/
def joinFrom (acc : List Char) : List Piece → Option String
  | [] => some (String.ofList acc.reverse)
  | .char c :: rest => joinFrom (c :: acc) rest
  | .unit n :: rest =>
      if isHighHalf n then
        match rest with
        | .unit m :: rest =>
            if isLowHalf m then
              joinFrom (Char.ofNat (0x10000 + (n - 0xD800) * 0x400 + (m - 0xDC00)) :: acc) rest
            else none
        | _ => none
      else if isLowHalf n then none
      else joinFrom (Char.ofNat n :: acc) rest

def escaped? (c : Char) : Option Char :=
  if c = '"' ∨ c = '\\' ∨ c = '/' then some c
  else if c = 'b' then some '\x08'
  else if c = 'f' then some '\x0c'
  else if c = 'n' then some '\n'
  else if c = 'r' then some '\r'
  else if c = 't' then some '\t'
  else none

def scanString (acc : List Piece) : List Char → Option (List Piece × List Char)
  | [] => none
  | '"' :: rest => some (acc.reverse, rest)
  | '\\' :: 'u' :: a :: b :: c :: d :: rest =>
      match Text.hexFrom? 0 [a, b, c, d] with
      | some n => scanString (.unit n :: acc) rest
      | none => none
  | '\\' :: e :: rest =>
      match escaped? e with
      | some c => scanString (.char c :: acc) rest
      | none => none
  | c :: rest => if c.toNat < 32 then none else scanString (.char c :: acc) rest

theorem length_scanString {acc : List Piece} {cs : List Char} {r : List Piece × List Char}
    (h : scanString acc cs = some r) : r.2.length < cs.length := by
  fun_induction scanString acc cs with
  | case1 => simp at h
  | case2 acc rest => simp at h; subst h; simp
  | case3 acc a b c d rest n hn ih => have := ih h; simp only [List.length_cons]; omega
  | case4 => simp at h
  | case5 acc e rest _ c hc ih => have := ih h; simp only [List.length_cons]; omega
  | case6 => simp at h
  | case7 => simp at h
  | case8 acc c rest _ _ _ hlt ih => have := ih h; simp only [List.length_cons]; omega

def isNumberChar (c : Char) : Bool :=
  c.isDigit || c == '-' || c == '+' || c == '.' || c == 'e' || c == 'E'

def isExponent : List Char → Bool
  | [] => true
  | c :: rest =>
      let digits := match rest with
        | '+' :: ds => ds
        | '-' :: ds => ds
        | ds => ds
      (c == 'e' || c == 'E') && !digits.isEmpty && digits.all Char.isDigit

def isFraction : List Char → Bool
  | '.' :: rest =>
      !(rest.takeWhile Char.isDigit).isEmpty && isExponent (rest.dropWhile Char.isDigit)
  | rest => isExponent rest

def isUnsigned : List Char → Bool
  | [] => false
  | c :: rest =>
      if c = '0' then isFraction rest else c.isDigit && isFraction (rest.dropWhile Char.isDigit)

def isNumber : List Char → Bool
  | '-' :: rest => isUnsigned rest
  | cs => isUnsigned cs

def isSpace (c : Char) : Bool :=
  c == ' ' || c == '\n' || c == '\t' || c == '\r'

def sign? (c : Char) : Option Token :=
  if c = '{' then some .leftBrace
  else if c = '}' then some .rightBrace
  else if c = '[' then some .leftBracket
  else if c = ']' then some .rightBracket
  else if c = ',' then some .comma
  else if c = ':' then some .colon
  else none

def word? : List Char → Option (Token × List Char)
  | 'n' :: 'u' :: 'l' :: 'l' :: rest => some (.null, rest)
  | 't' :: 'r' :: 'u' :: 'e' :: rest => some (.bool true, rest)
  | 'f' :: 'a' :: 'l' :: 's' :: 'e' :: rest => some (.bool false, rest)
  | _ => none

theorem length_word? {cs : List Char} {r : Token × List Char} (h : word? cs = some r) :
    r.2.length < cs.length := by
  unfold word? at h
  split at h
  · simp at h; subst h; simp only [List.length_cons]; omega
  · simp at h; subst h; simp only [List.length_cons]; omega
  · simp at h; subst h; simp only [List.length_cons]; omega
  · simp at h

def token? : List Char → Option (Token × List Char)
  | [] => none
  | c :: rest =>
      match sign? c with
      | some t => some (t, rest)
      | none =>
          if c = '"' then
            (scanString [] rest).map fun r => (.string (joinFrom [] r.1), r.2)
          else if isNumberChar c then
            let lexeme := c :: rest.takeWhile isNumberChar
            if isNumber lexeme then
              some (.number (String.ofList lexeme), rest.dropWhile isNumberChar)
            else none
          else word? (c :: rest)

theorem length_token? {cs : List Char} {r : Token × List Char} (h : token? cs = some r) :
    r.2.length < cs.length := by
  match cs with
  | [] => simp [token?] at h
  | c :: rest =>
      simp only [token?] at h
      split at h
      · simp at h; subst h; simp
      · split at h
        · obtain ⟨s, hs, rfl⟩ := Option.map_eq_some_iff.1 h
          have := length_scanString hs
          simp only [List.length_cons]
          omega
        · split at h
          · split at h
            · simp at h
              subst h
              have := (List.dropWhile_suffix isNumberChar (l := rest)).length_le
              simp only [List.length_cons]
              omega
            · simp at h
          · exact length_word? h

def lex (cs : List Char) : Option (List Token) :=
  match cs with
  | [] => some []
  | c :: rest =>
      if isSpace c then lex rest
      else match _h : token? (c :: rest) with
        | some r => (lex r.2).map fun ts => r.1 :: ts
        | none => none
termination_by cs.length
decreasing_by
  · simp
  · exact length_token? _h

end VectorMachine.Json
