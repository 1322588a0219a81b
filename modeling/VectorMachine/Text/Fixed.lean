namespace VectorMachine.Text

def roundHalfEven (num den : Nat) : Nat :=
  let q := num / den
  let r := num % den
  if 2 * r < den then q
  else if den < 2 * r then q + 1
  else if q % 2 = 0 then q
  else q + 1

theorem two_mul_roundHalfEven {num den : Nat} (h : 0 < den) :
    2 * num ≤ 2 * (roundHalfEven num den * den) + den ∧
      2 * (roundHalfEven num den * den) ≤ 2 * num + den := by
  have hd := Nat.div_add_mod num den
  have hr := Nat.mod_lt num h
  rw [Nat.mul_comm] at hd
  have hs : (num / den + 1) * den = num / den * den + den := Nat.succ_mul _ _
  unfold roundHalfEven
  dsimp only
  split
  · omega
  · split
    · omega
    · split <;> omega

/-- A finite positive number of double precision is `mantissa * 2 ^ exponent / 2 ^ 1075`. -/
def mantissa (bits : Nat) : Nat :=
  let fraction := bits % Nat.pow 2 52
  if bits / Nat.pow 2 52 % Nat.pow 2 11 = 0 then fraction else fraction + Nat.pow 2 52

def exponent (bits : Nat) : Nat :=
  max 1 (bits / Nat.pow 2 52 % Nat.pow 2 11)

def hundredths (bits : Nat) : Nat :=
  roundHalfEven (100 * mantissa bits * Nat.pow 2 (exponent bits)) (Nat.pow 2 1075)

def twoPlaces (x : Float) : String :=
  let n := hundredths x.toBits.toNat
  toString (n / 100) ++ "." ++ String.ofList [Nat.digitChar (n / 10 % 10), Nat.digitChar (n % 10)]

end VectorMachine.Text
