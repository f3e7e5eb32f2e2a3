-- SUMMARY: Numbers are quoted with the places of the options, and shown elsewhere with five.
import StyleScript.Proofs.Comparisons
import StyleScript.Proofs.Failures
import StyleScript.Proofs.FormattedNumbers
import StyleScript.Proofs.JoinedLists

/-!
# Rendered numbers

A number becomes a text where it is quoted, where it is joined to a string, and where an error
tells that it is of the wrong type. `quote` keeps as many places as the options say. The other two
know nothing of the options: they keep those of diagnostics.

What differs is how many places are written. A decimal that needs no more of them than either keeps
is shown alike, as long as a double has digits enough for it.

Main statement: the three texts of a number, and that they are the same for all numbers only if the
options keep the places of diagnostics.
-/

namespace StyleScript

/-! ## Joined strings -/

namespace BinaryOp

/-- `+` joins two values to a string, whatever expressions they come from and wherever these
    stand. -/
def Joins (v w : Value) (content : String) (quoted : Bool) : Prop :=
  ∀ (call : Caller) (scope : ScopeId) (left right : Expr) (place : Option Location)
    (m₀ m₁ m₂ : Machine),
    left.eval call scope m₀ = .ok v m₁ → right.eval call scope m₁ = .ok w m₂ →
    ∃ m, (Expr.binary .add left right place).eval call scope m₀ =
      .ok (.string content quoted m₂.builder.location) m

variable {v w : Value} {left right : String} {quoted : Bool}

theorem joins_of_concat (h : add.apply v w = concat left right quoted) :
    Joins v w (left ++ right) quoted := by
  intro call scope e f place m₀ m₁ m₂ hleft hright
  rw [eval_binary (by decide) hleft hright, h]
  exact ⟨_, Eval.locate_eq_ok.2 rfl⟩

/-- A number after a string has the places of diagnostics. -/
theorem joins_number_after (s : String) (quoted : Bool) (n : Number) (ls ln : Option Location) :
    Joins (.string s quoted ls) (.number n ln) (s ++ n.inspect defaultPlaces) quoted :=
  joins_of_concat rfl

theorem joins_number_before (s : String) (quoted : Bool) (n : Number) (ls ln : Option Location) :
    Joins (.number n ln) (.string s quoted ls) (n.inspect defaultPlaces ++ s) false :=
  joins_of_concat rfl

/-- What two values are joined to does not depend on where this is done. -/
theorem Joins.unique {content content' : String} {quoted' : Bool} (h : Joins v w content quoted)
    (h' : Joins v w content' quoted') : content = content' := by
  let m : Machine := ⟨.empty, .fresh, 0⟩
  let call : Caller := fun _ _ _ _ => throw .outOfFuel
  obtain ⟨k, hk⟩ := h call 0 (.literal v) (.literal w) none m m m rfl rfl
  obtain ⟨k', hk'⟩ := h' call 0 (.literal v) (.literal w) none m m m rfl rfl
  rw [hk] at hk'
  cases hk'
  rfl

end BinaryOp

/-! ## Messages -/

/-- The wording of an error about a value of the wrong type, as a builtin raises it. -/
def Builtin.mismatchMessage (b : Builtin) (parameter : String) (v : Value) (expected : TypeName) :
    String :=
  b.name ++ ": $" ++ parameter ++ ": `" ++ v.inspect defaultPlaces ++ "` is not a " ++ expected.text

theorem Value.message_mismatch (v : Value) (expected : TypeName) :
    (v.mismatch expected).message =
      "`" ++ v.inspect defaultPlaces ++ "` is not a " ++ expected.text := by
  change String.join [] ++ (Cause.notOfType v.text expected).message = _
  rw [String.join_nil, String.empty_append]
  rfl

theorem Builtin.message_mismatch (b : Builtin) (parameter : String) (v : Value)
    (expected : TypeName) (place : Option Location) :
    ((((v.mismatch expected).inContext ("$" ++ parameter)).inContext b.name).locate place).message =
      b.mismatchMessage parameter v expected := by
  rw [Error.message_locate, Error.message_inContext, Error.message_inContext,
    Value.message_mismatch, mismatchMessage]
  simp only [String.append_assoc]
  rfl

namespace Builtin

variable {call : Invocation} {n : Number} {l : Option Location}

theorem params_red : red.params = .worded [("color", none)] := Params.eq_worded (by decide +kernel)

theorem params_quote : quote.params = .worded [("string", none)] :=
  Params.eq_worded (by decide +kernel)

/-- A single argument is bound to a single parameter. -/
theorem bound_single {b : Builtin} {x : String} (hparams : b.params = .worded [(x, none)])
    (v : Value) (location : Option Location) :
    b.params.bound ⟨[v], []⟩ location = .ok (NameTable.empty.insertAll [(x, v)]) := by
  rw [hparams]
  rfl

theorem red_of_number (hbound : call.bound = NameTable.empty.insertAll [("color", .number n l)]) :
    red.answer call =
      .error (((Value.number n l).mismatch .color).inContext ("$" ++ "color")) := by
  have hcolor : call.arg "color" = .ok (.number n l) :=
    Invocation.arg_of_insertAll hbound (by simp) (by simp)
  simp only [red, channelOf, ofNumber, Invocation.color, hcolor]
  rfl

theorem quote_of_number
    (hbound : call.bound = NameTable.empty.insertAll [("string", .number n l)]) :
    quote.answer call = .ok (.quoted (n.inspect call.options.places)) := by
  have hstring : call.arg "string" = .ok (.number n l) :=
    Invocation.arg_of_insertAll hbound (by simp) (by simp)
  simp only [quote, hstring]
  rfl

end Builtin

namespace Session

variable {options : Options} {fuel : Nat} {name : String} {args : Args} {place : Option Location}
  {m n : Machine} {e : Error}

/-- An error about a type shows a value that the call binds, with the places of diagnostics. -/
theorem exists_mismatch
    (h : callAlone ⟨.standard, options⟩ (fuel + 1) name args place m = .error (.error e) n)
    (hkind : e.kind = .typeMismatch) :
    ∃ b ∈ Builtin.all, canonical b.name = canonical name ∧ ∃ table parameter v expected,
      b.params.bound args m.builder.location = .ok table ∧ table.get? parameter = some v ∧
        v.typeName ≠ expected ∧ e.message = b.mismatchMessage parameter v expected := by
  cases hresolve : Registry.standard.resolve name args.count with
  | error fault =>
    have hfail : ∃ k, callAlone ⟨.standard, options⟩ (fuel + 1) name args place m =
        .error (.error (fault.locate place)) k := callAlone_unresolved hresolve
    rw [h] at hfail
    obtain ⟨k, hk⟩ := hfail
    cases hk
    rw [Error.kind_locate] at hkind
    rcases Registry.kind_of_unresolved hresolve with hnone | ⟨hnone, -⟩ <;> simp [hnone] at hkind
  | ok f =>
    obtain ⟨b, hb, hname, hf⟩ := Registry.exists_of_resolve hresolve
    have hends : b.Ends options args place m.builder
        (callAlone ⟨.standard, options⟩ (fuel + 1) name args place m) :=
      ends_callAlone hb hf hresolve
    refine ⟨b, hb, hname, ?_⟩
    generalize callAlone ⟨.standard, options⟩ (fuel + 1) name args place m = o at h hends
    cases hends with
    | answered => cases h
    | misfit =>
      cases h
      cases hkind
    | @failed table outside fault k hbound hanswer hn =>
      cases h
      rcases Builtin.keepsToSignature_of_mem b hb _
        ((Builtin.literalDefaults hb).isSome_get? hbound) _ hanswer with
        ⟨parameter, v, expected, hget, hne, rfl⟩ | hother
      · exact ⟨table, parameter, v, expected, hbound, hget, hne, b.message_mismatch ..⟩
      · have hsame : fault.kind = .typeMismatch := hkind
        rw [hsame] at hother
        simp at hother

/-- No number has a red channel. -/
theorem red_fails (options : Options) (n : Number) (l place : Option Location) (fuel : Nat)
    (m : Machine) :
    ∃ e k, callAlone ⟨.standard, options⟩ (fuel + 1) "red" ⟨[.number n l], []⟩ place m =
      .error (.error e) k ∧ e.kind = .typeMismatch ∧
        e.message = "red: $color: `" ++ n.inspect defaultPlaces ++ "` is not a color" := by
  obtain ⟨outside, k, hcall⟩ := callAlone_of_bound (b := Builtin.red)
    (by simp [Builtin.all, Builtin.onChannels]) (by decide)
    (Builtin.bound_single Builtin.params_red (.number n l) m.builder.location) options fuel place
  rw [Builtin.red_of_number rfl] at hcall
  refine ⟨_, k, hcall, rfl, (Builtin.red.message_mismatch ..).trans ?_⟩
  have hname : "red" ++ ": $" ++ "color" ++ ": `" = "red: $color: `" := by decide
  have hwanted : "` is not a " ++ "color" = "` is not a color" := by decide
  rw [← hname, ← hwanted, ← String.append_assoc]
  rfl

/-- What is quoted has the places of the options. -/
theorem gives_quote (options : Options) (n : Number) (l : Option Location) :
    Gives options "quote" ⟨[.number n l], []⟩ (.string (n.inspect options.places) true) := by
  intro fuel place m
  obtain ⟨outside, k, hcall⟩ := callAlone_of_bound (b := Builtin.quote)
    (by simp [Builtin.all, Builtin.onValues]) (by decide)
    (Builtin.bound_single Builtin.params_quote (.number n l) m.builder.location) options fuel place
  rw [Builtin.quote_of_number rfl] at hcall
  exact ⟨k, hcall⟩

end Session

/-! ## Decimals of few digits -/

namespace Decimal

open Binary64

variable {x : Float} {b : Bool} {m c q places : ℕ} {e : ℤ}

/-- A double is the one next to a decimal with so many places, but for its sign. -/
def IsNext (x : Float) (c q : ℕ) : Prop :=
  ∃ b m e, parts x = .finite b m e ∧ Rounds (c / 10 ^ q) m e

/-- The unit of a double, scaled, is less than a third if a decimal of fifteen digits is rounded
    to it. -/
theorem unit_lt_third (hrounds : Rounds (c / 10 ^ min places 16) m e) (hc : c ≤ 10 ^ 15) :
    (2 ^ e * 10 ^ min places 16 : ℚ) < 1 / 3 := by
  have hfactor : (0 : ℚ) < 10 ^ min places 16 := by positivity
  have hunit : (0 : ℚ) < 2 ^ e := by positivity
  rcases hrounds.full with hm | rfl
  · have hm' : (2 : ℚ) ^ 52 ≤ m := by exact_mod_cast hm
    have hc' : (c : ℚ) ≤ 10 ^ 15 := by exact_mod_cast hc
    have hbelow := hrounds.contains.half_below
    rw [le_div_iff₀ hfactor] at hbelow
    have hmantissa := mul_le_mul_of_nonneg_right hm' (mul_pos hunit hfactor).le
    linarith
  · calc (2 : ℚ) ^ (-1074 : ℤ) * 10 ^ min places 16
      _ ≤ 2 ^ (-60 : ℤ) * 10 ^ 16 :=
          mul_le_mul (zpow_le_zpow_right₀ one_le_two (by decide)) (factor_le places)
            (by positivity) (by positivity)
      _ < 1 / 3 := by norm_num

/-- A double next to a decimal is near the decimal without its point when both are scaled. -/
theorem abs_scaled_sub_le (hrounds : Rounds (c / 10 ^ min places 16) m e) :
    |m * 2 ^ e * 10 ^ min places 16 - (c : ℚ)| ≤ 2 ^ e * 10 ^ min places 16 / 2 := by
  have hfactor : (0 : ℚ) < 10 ^ min places 16 := by positivity
  have hscaled := mul_le_mul_of_nonneg_right hrounds.abs_sub_le hfactor.le
  rw [← abs_of_pos hfactor, ← abs_mul, abs_of_pos hfactor, sub_mul,
    div_mul_cancel₀ _ hfactor.ne'] at hscaled
  linarith

/-- A decimal of fifteen digits is found again when it is rounded to its places. -/
theorem parts_toPlaces (hx : parts x = .finite b m e)
    (hrounds : Rounds (c / 10 ^ min places 16) m e) (hpos : 0 < c) (hc : c ≤ 10 ^ 15) :
    0 < m ∧ parts (toPlaces places x) = .finite b m e := by
  have hunit := unit_lt_third hrounds hc
  have hnext := abs_scaled_sub_le hrounds
  have hc' : (c : ℚ) ≤ 10 ^ 15 := by exact_mod_cast hc
  have hone : (1 : ℚ) ≤ c := by exact_mod_cast hpos
  have hm : 0 < m := by
    refine Nat.pos_of_ne_zero ?_
    rintro rfl
    rw [Nat.cast_zero, zero_mul, zero_mul, zero_sub, abs_neg, abs_of_pos (by linarith)] at hnext
    linarith
  have hbelow := (abs_le.1 hnext).2
  have hover := two_pow_lt_overflow
  obtain ⟨s, hs, -, -, herror, -⟩ := exists_scaled hx hm places (by linarith)
  obtain ⟨r, -, hwhole, hnear, -⟩ := exists_nearestInt? hs
  -- the scaled double and its rounding are less than one half from the decimal together
  have hr : r = c := by
    have hlt : |(r : ℚ) - c| < 1 :=
      calc |(r : ℚ) - c| ≤ |r - s| + |s - c| := abs_sub_le ..
        _ ≤ |r - s| + (|s - m * 2 ^ e * 10 ^ min places 16| +
              |m * 2 ^ e * 10 ^ min places 16 - (c : ℚ)|) := by gcongr; exact abs_sub_le ..
        _ < 1 := by linarith
    have hlt' : |(r : ℤ) - c| < 1 := by exact_mod_cast hlt
    have hzero := Int.abs_lt_one_iff.1 hlt'
    omega
  rw [hr] at hwhole
  obtain ⟨n, g, hquotient, hn, hg, hparts⟩ := exists_quotient hwhole hone (by linarith) places
  obtain ⟨rfl, rfl⟩ := hrounds.unique hquotient
  exact ⟨hm, hparts⟩

/-- A decimal of fifteen digits is written with all of its places, and no more. -/
theorem format_of_isNext (h : IsNext x c q) (hq : q ≤ min places 16)
    (hc : c * 10 ^ (min places 16 - q) ≤ 10 ^ 15) :
    format places x = if c = 0 then "0" else text x := by
  obtain ⟨b, m, e, hx, hrounds⟩ := h
  rcases Nat.eq_zero_or_pos c with rfl | hpos
  · have hm : m = 0 := by
      have hbelow := hrounds.contains.half_below
      rw [Nat.cast_zero, zero_div] at hbelow
      have hle : (m : ℚ) - 1 / 2 ≤ 0 := nonpos_of_mul_nonpos_left hbelow (by positivity)
      have hlt : (m : ℚ) < 1 := by linarith
      exact Nat.lt_one_iff.1 (by exact_mod_cast hlt)
    rw [hm] at hx
    rw [format, beq_zero_of_zero (parts_toPlaces_zero hx places)]
    rfl
  · obtain ⟨k, hk⟩ : ∃ k, min places 16 = q + k := ⟨min places 16 - q, by omega⟩
    have hscale : (c / 10 ^ q : ℚ) = (c * 10 ^ (min places 16 - q) : ℕ) / 10 ^ min places 16 := by
      rw [hk, Nat.add_sub_cancel_left, pow_add]
      push_cast
      rw [mul_div_mul_right _ _ (by positivity)]
    rw [hscale] at hrounds
    obtain ⟨hm, hparts⟩ := parts_toPlaces hx hrounds (by positivity) hc
    have hspell : spell (toPlaces places x) = spell x := by rw [spell, spell, hparts, hx]
    rw [format, beq_zero_of_pos hparts hm, if_neg hpos.ne', text, text, hspell]
    rfl

/-! ## Agreement -/

theorem format_min (places : ℕ) (x : Float) : format (min places 16) x = format places x := by
  unfold format toPlaces
  rw [min_eq_left (min_le_right places 16)]

/-- The texts of a ninth differ for all numbers of places that count. -/
theorem eq_of_format_ninth :
    ∀ p < 17, format p (1 / 9) = format defaultPlaces (1 / 9) → p = defaultPlaces := by
  decide +kernel

end Decimal

/-- Only with the standard number of places all numbers are shown as in diagnostics. -/
theorem Number.inspect_eq_iff (places : ℕ) :
    (∀ n : Number, n.inspect defaultPlaces = n.inspect places) ↔ places = defaultPlaces := by
  refine ⟨fun h => ?_, fun h n => by rw [h]⟩
  have hformat : Decimal.format (min places 16) (1 / 9) = Decimal.format defaultPlaces (1 / 9) := by
    have hninth := h (.unitless (1 / 9))
    simp only [inspect, String.append_left_inj] at hninth
    rw [Decimal.format_min]
    exact hninth.symm
  have hmin := Decimal.eq_of_format_ninth _ (by omega) hformat
  have hdefault : defaultPlaces = 5 := rfl
  omega

/-- A decimal of fifteen digits at most is shown alike with any two numbers of places that it needs
    no more of. -/
theorem Number.inspect_of_isNext (n : Number) (places : ℕ) {c q : ℕ}
    (h : Decimal.IsNext n.value c q) (hq : q ≤ min places defaultPlaces)
    (hc : c * 10 ^ (max (min places 16) defaultPlaces - q) ≤ 10 ^ 15) :
    n.inspect defaultPlaces = n.inspect places := by
  have hdefault : defaultPlaces = 5 := rfl
  have hfits {p : ℕ} (hp : min p 16 ≤ max (min places 16) defaultPlaces) :
      c * 10 ^ (min p 16 - q) ≤ 10 ^ 15 :=
    le_trans (Nat.mul_le_mul_left c (Nat.pow_le_pow_right (by decide) (by omega))) hc
  rw [inspect, inspect, Decimal.format_of_isNext h (by omega) (hfits (by omega)),
    Decimal.format_of_isNext h (by omega) (hfits (by omega))]

namespace Session

/-- What is quoted has the places of the options. What is joined to a string, on either side, has
    the places of diagnostics, and so has every value that a builtin refuses for its type, such as
    a number whose red channel is asked for. A decimal that needs no more places is shown alike by
    all of them if it has fifteen digits at most. All numbers are shown alike only if the options
    keep the places of diagnostics. -/
theorem numbers_shown_apart (options : Options) (n : Number) :
    (∀ l, Gives options "quote" ⟨[.number n l], []⟩ (.string (n.inspect options.places) true)) ∧
    (∀ (s : String) (quoted : Bool) (ls ln : Option Location),
      BinaryOp.Joins (.string s quoted ls) (.number n ln) (s ++ n.inspect defaultPlaces) quoted ∧
      BinaryOp.Joins (.number n ln) (.string s quoted ls) (n.inspect defaultPlaces ++ s) false) ∧
    (∀ (l place : Option Location) (fuel : Nat) (m : Machine), ∃ e k,
      callAlone ⟨.standard, options⟩ (fuel + 1) "red" ⟨[.number n l], []⟩ place m =
        .error (.error e) k ∧
      e.kind = .typeMismatch ∧
      e.message = "red: $color: `" ++ n.inspect defaultPlaces ++ "` is not a color") ∧
    (∀ (fuel : Nat) (name : String) (args : Args) (place : Option Location) (m k : Machine)
      (e : Error),
      callAlone ⟨.standard, options⟩ (fuel + 1) name args place m = .error (.error e) k →
      e.kind = .typeMismatch →
      ∃ b ∈ Builtin.all, canonical b.name = canonical name ∧ ∃ table parameter v expected,
        b.params.bound args m.builder.location = .ok table ∧ table.get? parameter = some v ∧
          v.typeName ≠ expected ∧
          e.message = b.name ++ ": $" ++ parameter ++ ": `" ++ v.inspect defaultPlaces ++
            "` is not a " ++ expected.text) ∧
    (∀ c q : ℕ, Decimal.IsNext n.value c q → q ≤ min options.places defaultPlaces →
      c * 10 ^ (max (min options.places 16) defaultPlaces - q) ≤ 10 ^ 15 →
      n.inspect defaultPlaces = n.inspect options.places) ∧
    ((∀ n : Number, n.inspect defaultPlaces = n.inspect options.places) ↔
      options.places = defaultPlaces) :=
  ⟨gives_quote options n,
    fun s quoted ls ln => ⟨BinaryOp.joins_number_after s quoted n ls ln,
      BinaryOp.joins_number_before s quoted n ls ln⟩,
    red_fails options n,
    fun _ _ _ _ _ _ _ => exists_mismatch,
    fun _ _ => n.inspect_of_isNext options.places,
    Number.inspect_eq_iff options.places⟩

/-- With ten places a number is quoted in full, but joined and refused with five. -/
theorem full_only_when_quoted :
    let options : Options := ⟨10, 256⟩
    let n : Number := .unitless 1.23456789
    let m : Machine := ⟨.empty, .fresh, 0⟩
    Gives options "quote" ⟨[.number n none], []⟩ (.string "1.23456789" true) ∧
      BinaryOp.Joins (.string "" true none) (.number n none) "1.23457" true ∧
      ¬BinaryOp.Joins (.string "" true none) (.number n none) "1.23456789" true ∧
      ∃ e k, callAlone ⟨.standard, options⟩ 1 "red" ⟨[.number n none], []⟩ none m =
          .error (.error e) k ∧
        e.message = "red: $color: `1.23457` is not a color" := by
  intro options n m
  have hfull : n.inspect options.places = "1.23456789" := by decide +kernel
  have hshort : n.inspect defaultPlaces = "1.23457" := by decide +kernel
  have hjoins : BinaryOp.Joins (.string "" true none) (.number n none) "1.23457" true :=
    hshort ▸ BinaryOp.joins_number_after "" true n none none
  refine ⟨hfull ▸ gives_quote options n none, hjoins, fun hother => ?_, ?_⟩
  · exact absurd (hjoins.unique hother) (by decide)
  · obtain ⟨e, k, hcall, -, hmessage⟩ := red_fails options n none none 0 m
    exact ⟨e, k, hcall, by rw [hmessage, hshort]; rfl⟩

end Session

end StyleScript
