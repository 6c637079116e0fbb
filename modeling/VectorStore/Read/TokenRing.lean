import VectorStore.Read.FullScan

/-!
# Ranges of the token ring

The full scan covers the tokens from the lowest to the highest one by ranges.  A range goes from a
token of the ring to just before the next one; the lowest token comes first, and the last range
ends at the highest token.
-/

namespace VectorStore

/-- `i64::MIN`. -/
def i64Min : ℤ := -2 ^ 63

/-- `TOKEN_MAX`, the highest token. -/
def tokenMax : ℤ := 2 ^ 63 - 1

/-- `TOKEN_MIN`, the lowest token. -/
def tokenMin : ℤ := -tokenMax

/-- `Token::new` of the driver: the least number is no token and becomes the highest one. -/
def Token.new (value : ℤ) : Token := if value = i64Min then tokenMax else value

/-- The tokens that the driver returns. -/
structure TokenRing where
  tokens : List Token
  sorted : tokens.Pairwise (· < ·)
  bounds : ∀ token ∈ tokens, tokenMin ≤ token ∧ token ≤ tokenMax

/-- One less than a 64-bit number. -/
def decrement (value : ℤ) : Except Failure ℤ :=
  if value = i64Min then .error (.panic "attempt to subtract with overflow") else .ok (value - 1)

/-- `circular_tuple_windows` for pairs. -/
def circularTupleWindows {α : Type} (xs : List α) : List (α × α) := xs.zip (xs.rotate 1)

/-- The range of a window of tokens. -/
def fullscanRange (window : Token × Token) : Except Failure (Token × Token) :=
  if window.1 > window.2 then .ok (window.1, .new tokenMax)
  else do
    let stop ← decrement window.2
    return (window.1, .new stop)

/-- `fullscan_ranges`. -/
def fullscanRanges (tokenRing : List Token) : Except Failure (List (Token × Token)) :=
  (circularTupleWindows (.new tokenMin :: tokenRing)).mapM fullscanRange

/-- The progress of the full scan; the percentage is that of the completed length. -/
inductive Progress where
  | done
  | inProgress (completedScanLength : ℕ)
deriving DecidableEq

/-- `Progress::from`. -/
def Progress.ofLength (completedScanLength : ℕ) : Progress :=
  if completedScanLength = 2 ^ 64 - 1 then .done else .inProgress completedScanLength

end VectorStore
