import Mathlib.Tactic.Linarith
import ZyronChain.Lib.Checks

/-!
# Quotes of the constant-product market maker

A quote for an exact input takes the fee off the input, divides rounding down, and refuses when the
output is zero, when it would take the whole reserve, or when the product of the reserves would
decrease.  All amounts are arbitrary-precision integers.

Everything rests on one inequality, `ExactInput.Valid.amountOut_mul_le`: what the pool keeps of the output reserve,
weighted with the input after the fee, pays for the output.  The last two refusals are unreachable.

Source: `l1/src/amm-math.ts`.

## Main results

* `quoteExactInput_eq` : a quote with valid arguments is refused only when its output is zero.
* `quote_never_favours_trader` : the product does not decrease, the output is smaller than its
  reserve and grows with the input, and swapping back returns no more than was paid.
-/

namespace ZyronChain

open Checks

/-- `AMM_BASIS_POINTS`. -/
def ammBasisPoints : Int := 10000

/-- `DEFAULT_SWAP_FEE_BPS`: 0.30%. -/
def defaultSwapFeeBps : Int := 30

/-- `MAX_SWAP_FEE_BPS`: 10%. -/
def maxSwapFeeBps : Int := 1000

structure ExactInputQuote where
  amountIn : Int
  amountOut : Int
  feeBps : Int
  reserveInBefore : Int
  reserveOutBefore : Int
  reserveInAfter : Int
  reserveOutAfter : Int
  kBefore : Int
  kAfter : Int
  deriving DecidableEq

def assertPositive (value : Int) (name : String) : Except String Unit :=
  throwIf (value ≤ 0) s!"Invalid {name}"

def assertFee (feeBps : Int) : Except String Unit :=
  throwIf (feeBps < 0 ∨ feeBps > maxSwapFeeBps) "Invalid AMM fee"

/-- The arguments of a quote. -/
structure ExactInput where
  reserveIn : Int
  reserveOut : Int
  amountIn : Int
  feeBps : Int

namespace ExactInput

def amountInWithFee (x : ExactInput) : Int := x.amountIn * (ammBasisPoints - x.feeBps)

def denominator (x : ExactInput) : Int := x.reserveIn * ammBasisPoints + x.amountInWithFee

/-- `amountOut`: the division of integers drops the fraction. -/
def amountOut (x : ExactInput) : Int := (x.amountInWithFee * x.reserveOut).tdiv x.denominator

/-- The quote that valid arguments with a positive output get. -/
def quote (x : ExactInput) : ExactInputQuote where
  amountIn := x.amountIn
  amountOut := x.amountOut
  feeBps := x.feeBps
  reserveInBefore := x.reserveIn
  reserveOutBefore := x.reserveOut
  reserveInAfter := x.reserveIn + x.amountIn
  reserveOutAfter := x.reserveOut - x.amountOut
  kBefore := x.reserveIn * x.reserveOut
  kAfter := (x.reserveIn + x.amountIn) * (x.reserveOut - x.amountOut)

end ExactInput

def quoteExactInput (x : ExactInput) : Except String ExactInputQuote := do
  assertPositive x.reserveIn "reserveIn"
  assertPositive x.reserveOut "reserveOut"
  assertPositive x.amountIn "amountIn"
  assertFee x.feeBps
  throwIf (x.denominator ≤ 0) "Invalid AMM denominator"
  throwIf (x.amountOut ≤ 0) "Swap output rounds to zero"
  throwIf (x.amountOut ≥ x.reserveOut) "Swap would exhaust output reserve"
  throwIf (x.quote.kAfter < x.quote.kBefore) "Constant-product invariant decreased"
  .ok x.quote

/-! ### Valid arguments -/

/-- The arguments that a quote accepts. -/
structure ExactInput.Valid (x : ExactInput) : Prop where
  reserveIn_pos : 0 < x.reserveIn
  reserveOut_pos : 0 < x.reserveOut
  amountIn_pos : 0 < x.amountIn
  fee_nonneg : 0 ≤ x.feeBps
  fee_le : x.feeBps ≤ maxSwapFeeBps

namespace ExactInput.Valid

variable {x : ExactInput}

theorem multiplier_pos (h : x.Valid) : 0 < ammBasisPoints - x.feeBps := by
  have hfee := h.fee_le
  rw [maxSwapFeeBps] at hfee
  rw [ammBasisPoints]
  omega

theorem withFee_pos (h : x.Valid) : 0 < x.amountInWithFee :=
  Int.mul_pos h.amountIn_pos h.multiplier_pos

theorem withFee_le (h : x.Valid) : x.amountInWithFee ≤ x.amountIn * ammBasisPoints := by
  have hfee := h.fee_nonneg
  exact Int.mul_le_mul_of_nonneg_left (by omega) h.amountIn_pos.le

theorem denominator_pos (h : x.Valid) : 0 < x.denominator :=
  Int.add_pos (Int.mul_pos h.reserveIn_pos (by decide)) h.withFee_pos

theorem numerator_pos (h : x.Valid) : 0 < x.amountInWithFee * x.reserveOut :=
  Int.mul_pos h.withFee_pos h.reserveOut_pos

theorem amountOut_eq (h : x.Valid) :
    x.amountOut = x.amountInWithFee * x.reserveOut / x.denominator :=
  Int.tdiv_eq_ediv_of_nonneg h.numerator_pos.le

theorem amountOut_nonneg (h : x.Valid) : 0 ≤ x.amountOut := by
  rw [h.amountOut_eq]
  exact Int.ediv_nonneg h.numerator_pos.le h.denominator_pos.le

/-- The output, weighted with the input reserve, is at most what stays of the output reserve,
weighted with the input after the fee. -/
theorem amountOut_mul_le (h : x.Valid) : x.amountOut * (x.reserveIn * ammBasisPoints) ≤
    x.amountInWithFee * (x.reserveOut - x.amountOut) := by
  have hfloor : x.amountOut * x.denominator ≤ x.amountInWithFee * x.reserveOut := by
    rw [h.amountOut_eq]
    exact Int.ediv_mul_le _ h.denominator_pos.ne'
  rw [denominator, Int.mul_add] at hfloor
  rw [Int.mul_sub]
  linarith [Int.mul_comm x.amountOut x.amountInWithFee]

theorem amountOut_lt (h : x.Valid) : x.amountOut < x.reserveOut := by
  rw [h.amountOut_eq]
  refine Int.ediv_lt_of_lt_mul h.denominator_pos ?_
  rw [Int.mul_comm x.reserveOut]
  refine Int.mul_lt_mul_of_pos_right ?_ h.reserveOut_pos
  exact Int.lt_add_of_pos_left _ (Int.mul_pos h.reserveIn_pos (by decide))

theorem rest_nonneg (h : x.Valid) : 0 ≤ x.reserveOut - x.amountOut := by
  have hlt := h.amountOut_lt
  omega

/-- The product of the reserves does not decrease: the fee stays in the pool and the output is
rounded down. -/
theorem product_le (h : x.Valid) :
    x.reserveIn * x.reserveOut ≤ (x.reserveIn + x.amountIn) * (x.reserveOut - x.amountOut) := by
  have hpaid := h.amountOut_mul_le
  have hwhole := Int.mul_le_mul_of_nonneg_right h.withFee_le h.rest_nonneg
  -- without the fee the whole input pays for the output
  have hinput : x.amountOut * x.reserveIn ≤ x.amountIn * (x.reserveOut - x.amountOut) := by
    rw [ammBasisPoints] at hpaid hwhole
    linarith
  linarith [Int.mul_comm x.amountOut x.reserveIn]

theorem mono {amountIn : Int} (h : x.Valid) (hle : x.amountIn ≤ amountIn) :
    Valid { x with amountIn } :=
  { h with amountIn_pos := h.amountIn_pos.trans_le hle }

theorem amountOut_mono {amountIn : Int} (h : x.Valid) (hle : x.amountIn ≤ amountIn) :
    x.amountOut ≤ ExactInput.amountOut { x with amountIn } := by
  have hmore := h.mono hle
  have hfee : x.amountInWithFee ≤ ExactInput.amountInWithFee { x with amountIn } :=
    Int.mul_le_mul_of_nonneg_right hle h.multiplier_pos.le
  have hpaid := h.amountOut_mul_le.trans (Int.mul_le_mul_of_nonneg_right hfee h.rest_nonneg)
  rw [hmore.amountOut_eq]
  refine Int.le_ediv_of_mul_le hmore.denominator_pos ?_
  rw [Int.mul_sub] at hpaid
  rw [denominator, Int.mul_add]
  linarith [Int.mul_comm x.amountOut (ExactInput.amountInWithFee { x with amountIn })]

end ExactInput.Valid

/-! ### Quotes -/

section

variable {x : ExactInput} {quote : ExactInputQuote}

theorem assertFee_eq_ok {feeBps : Int} :
    assertFee feeBps = .ok () ↔ 0 ≤ feeBps ∧ feeBps ≤ maxSwapFeeBps := by
  rw [assertFee, throwIf_eq_ok, not_or, not_lt, not_lt]

/-- A quote with valid arguments is refused only when its output is zero. -/
theorem quoteExactInput_eq (h : x.Valid) : quoteExactInput x =
    if x.amountOut = 0 then .error "Swap output rounds to zero" else .ok x.quote := by
  have hproduct : ¬ x.quote.kAfter < x.quote.kBefore := not_lt.mpr h.product_le
  rw [quoteExactInput, assertPositive, throwIf_of_not (not_le.mpr h.reserveIn_pos), ok_bind,
    assertPositive, throwIf_of_not (not_le.mpr h.reserveOut_pos), ok_bind, assertPositive,
    throwIf_of_not (not_le.mpr h.amountIn_pos), ok_bind,
    assertFee_eq_ok.mpr ⟨h.fee_nonneg, h.fee_le⟩, ok_bind,
    throwIf_of_not (not_le.mpr h.denominator_pos), ok_bind]
  by_cases hzero : x.amountOut = 0
  · rw [if_pos hzero, hzero]
    rfl
  · have hnonneg := h.amountOut_nonneg
    rw [if_neg hzero, throwIf_of_not (by omega), ok_bind, throwIf_of_not (not_le.mpr h.amountOut_lt),
      ok_bind, throwIf_of_not hproduct, ok_bind]

theorem quoteExactInput_eq_ok (h : quoteExactInput x = .ok quote) : x.Valid ∧ quote = x.quote := by
  have hvalid : x.Valid := by
    simp only [quoteExactInput, assertPositive, assertFee, throwIf_bind_eq_ok, not_le, not_or,
      not_lt] at h
    obtain ⟨hreserveIn, hreserveOut, hamountIn, hfee, -⟩ := h
    exact ⟨hreserveIn, hreserveOut, hamountIn, hfee.1, hfee.2⟩
  rw [quoteExactInput_eq hvalid] at h
  split at h
  · cases h
  · exact ⟨hvalid, (Except.ok.inj h).symm⟩

/-- Swapping the output back returns no more than was paid: neither swap decreases the product, and
after both the output reserve is what it was. -/
theorem amountOut_back_le {feeBps : Int} {back : ExactInputQuote} (h : quoteExactInput x = .ok quote)
    (hback : quoteExactInput ⟨quote.reserveOutAfter, quote.reserveInAfter, quote.amountOut, feeBps⟩ =
      .ok back) : back.amountOut ≤ x.amountIn := by
  obtain ⟨hvalid, rfl⟩ := quoteExactInput_eq_ok h
  obtain ⟨hvalidBack, rfl⟩ := quoteExactInput_eq_ok hback
  have hthere := hvalid.product_le
  have hagain := hvalidBack.product_le
  simp only [ExactInput.quote, Int.sub_add_cancel] at hagain ⊢
  have hproduct := hthere.trans ((Int.mul_comm ..).le.trans hagain)
  rw [Int.mul_comm] at hproduct
  have hreserve := Int.le_of_mul_le_mul_left hproduct hvalid.reserveOut_pos
  omega

/-- A quote with positive reserves and input and an accepted fee is refused only when its output is
zero.  Otherwise the product of the reserves does not decrease, the output is smaller than its
reserve, a larger input has a quote with no smaller output, and swapping the output back, at any fee,
returns no more than was paid. -/
theorem quote_never_favours_trader (hreserveIn : 0 < x.reserveIn) (hreserveOut : 0 < x.reserveOut)
    (hamountIn : 0 < x.amountIn) (hfee : assertFee x.feeBps = .ok ()) :
    quoteExactInput x = .error "Swap output rounds to zero" ∨
      ∃ quote, quoteExactInput x = .ok quote ∧ quote.reserveInAfter = x.reserveIn + x.amountIn ∧
        quote.reserveOutAfter = x.reserveOut - quote.amountOut ∧
        x.reserveIn * x.reserveOut ≤ quote.reserveInAfter * quote.reserveOutAfter ∧
        quote.amountOut < x.reserveOut ∧
        (∀ amountIn, x.amountIn ≤ amountIn → ∃ quote',
          quoteExactInput { x with amountIn } = .ok quote' ∧ quote.amountOut ≤ quote'.amountOut) ∧
        ∀ feeBps back,
          quoteExactInput ⟨quote.reserveOutAfter, quote.reserveInAfter, quote.amountOut, feeBps⟩ =
            .ok back → back.amountOut ≤ x.amountIn := by
  obtain ⟨hnonneg, hmax⟩ := assertFee_eq_ok.mp hfee
  have hvalid : x.Valid := ⟨hreserveIn, hreserveOut, hamountIn, hnonneg, hmax⟩
  have heq := quoteExactInput_eq hvalid
  by_cases hzero : x.amountOut = 0
  · rw [if_pos hzero] at heq
    exact .inl heq
  · rw [if_neg hzero] at heq
    refine .inr ⟨_, heq, rfl, rfl, hvalid.product_le, hvalid.amountOut_lt, ?_,
      fun feeBps back hback => amountOut_back_le heq hback⟩
    intro amountIn hle
    have hmono := hvalid.amountOut_mono hle
    have hpos := hvalid.amountOut_nonneg
    refine ⟨ExactInput.quote { x with amountIn }, ?_, hmono⟩
    rw [quoteExactInput_eq (hvalid.mono hle), if_neg (by omega)]

theorem quote_never_favours_trader_hundred :
    quoteExactInput ⟨1000, 1000, 100, defaultSwapFeeBps⟩ =
        .ok ⟨100, 90, 30, 1000, 1000, 1100, 910, 1000000, 1001000⟩ ∧
      quoteExactInput ⟨910, 1100, 90, defaultSwapFeeBps⟩ =
        .ok ⟨90, 98, 30, 910, 1100, 1000, 1002, 1001000, 1002000⟩ ∧
      (98 : Int) ≤ 100 := by
  have hthere : quoteExactInput ⟨1000, 1000, 100, defaultSwapFeeBps⟩ =
      .ok ⟨100, 90, 30, 1000, 1000, 1100, 910, 1000000, 1001000⟩ := by decide
  have hback : quoteExactInput ⟨910, 1100, 90, defaultSwapFeeBps⟩ =
      .ok ⟨90, 98, 30, 910, 1100, 1000, 1002, 1001000, 1002000⟩ := by decide
  refine ⟨hthere, hback, ?_⟩
  rcases @quote_never_favours_trader ⟨1000, 1000, 100, defaultSwapFeeBps⟩ (by decide) (by decide)
    (by decide) (by decide) with hrefused | ⟨quote, hquote, -, -, -, -, -, hround⟩
  · rw [hthere] at hrefused
    cases hrefused
  · rw [hthere] at hquote
    cases hquote
    exact hround _ _ hback

end

end ZyronChain
