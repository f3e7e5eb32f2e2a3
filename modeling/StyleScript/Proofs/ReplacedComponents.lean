-- SUMMARY: Which components `change-color` takes, and what it keeps of the color.
import StyleScript.Proofs.ChannelArguments
import StyleScript.Proofs.Gamut

/-!
# Replaced components

`change-color` takes any of seven components by name. Those that are not given, or given as null,
stay as they are. Each kind of change checks the components that it uses and no others, and still
none goes unchecked: channels cannot be given together with hue, saturation or lightness.

Main statement: which components are taken, what is answered to all others, and what the new
color has of them and of the old one.
-/

namespace StyleScript

/-! ## Doubles that are in a range -/

namespace Binary64

variable {low high x y : Float}

theorem beq_self_of_not_nan (h : x.isNaN = false) : (x == x) = true := by
  have hnumber : x.toModel.unpack ≠ .notANumber := by
    intro hnan
    have hx : x.toModel.unpack.isNaN = false := h
    rw [hnan] at hx
    cases hx
  have hswap := compare_swap x.toModel.unpack x.toModel.unpack
  rw [beq_iff]
  cases ho : x.toModel.unpack.compare x.toModel.unpack with
  | none => exact ((compare_eq_none ho).elim hnumber hnumber).elim
  | some o =>
    rw [ho] at hswap
    cases o with
    | eq => rfl
    | lt => cases hswap
    | gt => cases hswap

theorem not_lt_of_le (h : x ≤ y) : ¬y < x := by
  rw [le_iff, compare_swap] at h
  rw [lt_iff]
  intro hlt
  rw [hlt] at h
  cases h

/-- What is in a range is a number and not outside of the range. -/
theorem not_outside (hbelow : low ≤ x) (habove : x ≤ high) :
    ¬(x < low ∨ high < x ∨ x.isNaN = true) := by
  rintro (hlt | hlt | hnan)
  · exact not_lt_of_le hbelow hlt
  · exact not_lt_of_le habove hlt
  · exact Bool.false_ne_true ((isNaN_of_le hbelow).symm.trans hnan)

theorem between_of_not_outside (hlow : (low == low) = true) (hhigh : (high == high) = true)
    (h : ¬(x < low ∨ high < x ∨ x.isNaN = true)) : low ≤ x ∧ x ≤ high := by
  simp only [not_or] at h
  obtain ⟨hbelow, habove, hnumber⟩ := h
  have hx := beq_self_of_not_nan (Bool.eq_false_iff.2 hnumber)
  exact ⟨le_of_not_lt hlow hx hbelow, le_of_not_lt hx hhigh habove⟩

/-- What is in a range stays where it is. -/
theorem clamp_of_between (hbelow : low ≤ x) (habove : x ≤ high) : Scalar.clamp low high x = x := by
  have hx := beq_self_of_not_nan (isNaN_of_le hbelow)
  rw [Scalar.clamp, if_pos hx, Scalar.limit, if_neg (not_lt_of_le hbelow),
    if_neg (not_lt_of_le habove)]

end Binary64

/-! ## Taking components -/

theorem yields_none_bind {α β : Type} {kind : ErrorKind} {x : Except Error α}
    {f : α → Except Error β} (hx : Yields kind x none) : Yields kind (x >>= f) none := by
  obtain ⟨e, rfl, hkind⟩ := hx
  exact ⟨e, rfl, hkind⟩

namespace Components

/-- A component is in a range unless it is given with a magnitude outside of it. What is not a
    number is in no range. -/
def Within (low high : Float) (n : Option Number) : Prop :=
  ∀ k ∈ n, low ≤ k.value ∧ k.value ≤ high

/-- The magnitude of a component, or the color's own when it is not given. -/
def valueOr (own : Float) (n : Option Number) : Float := (n.map (·.value)).getD own

/-- Components of one kind, each in its range. Any hue is. -/
structure Admitted (parts : Components) : Prop where
  unmixed : ¬(parts.hasChannel = true ∧ parts.hasHsl = true)
  red : Within 0 255 parts.red
  green : Within 0 255 parts.green
  blue : Within 0 255 parts.blue
  saturation : Within 0 100 parts.saturation
  lightness : Within 0 100 parts.lightness
  alpha : Within 0 1 parts.alpha

/-- The color with the given components in place of its own, whatever they are. -/
def replace (parts : Components) (c : Color Float) : Color Float :=
  let alpha := valueOr c.alpha parts.alpha
  if parts.hasHsl then
    .ofHsl ⟨valueOr c.toHsl.hue parts.hue, valueOr c.toHsl.saturation parts.saturation,
      valueOr c.toHsl.lightness parts.lightness⟩ alpha
  else .rgba (valueOr c.red parts.red) (valueOr c.green parts.green) (valueOr c.blue parts.blue) alpha

variable {parts : Components} {c : Color Float} {low high : Float} {n : Option Number}

theorem within_none : Within low high none := nofun

theorem magnitude_of_within (h : Within low high n) (parameter : String) (absent : Float) :
    magnitude parameter n low high absent = .ok (valueOr absent n) := by
  cases n with
  | none => rfl
  | some k =>
    obtain ⟨hbelow, habove⟩ := h k rfl
    rw [magnitude, Invocation.inRange, if_neg (Binary64.not_outside hbelow habove)]
    rfl

/-- What is done with a component that is in its range. -/
theorem magnitude_bind_of_within {α : Type} (h : Within low high n) (parameter : String)
    (absent : Float) (f : Float → Except Error α) :
    magnitude parameter n low high absent >>= f = f (valueOr absent n) := by
  rw [magnitude_of_within h]
  rfl

theorem magnitude_of_not_within (hlow : (low == low) = true) (hhigh : (high == high) = true)
    (h : ¬Within low high n) (parameter : String) (absent : Float) :
    Yields .argumentRange (magnitude parameter n low high absent) none := by
  cases n with
  | none => exact absurd within_none h
  | some k =>
    have houtside : k.value < low ∨ high < k.value ∨ k.value.isNaN = true := by
      refine Decidable.not_not.1 fun hinside => h fun k' hk' => ?_
      cases hk'
      exact Binary64.between_of_not_outside hlow hhigh hinside
    rw [magnitude, Invocation.inRange, if_pos houtside]
    exact ⟨_, rfl, rfl⟩

theorem hasChannel_eq_false :
    parts.hasChannel = false ↔ parts.red = none ∧ parts.green = none ∧ parts.blue = none := by
  simp [hasChannel, Bool.or_eq_false_iff, and_assoc]

theorem hasHsl_eq_false :
    parts.hasHsl = false ↔ parts.hue = none ∧ parts.saturation = none ∧ parts.lightness = none := by
  simp [hasHsl, Bool.or_eq_false_iff, and_assoc]

/-! ## The three kinds of change -/

theorem change_channels (halpha : Within 0 1 parts.alpha) (hchannel : parts.hasChannel = true)
    (c : Color Float) :
    parts.change c =
      magnitude "red" parts.red 0 255 c.red >>= fun red =>
        magnitude "green" parts.green 0 255 c.green >>= fun green =>
          magnitude "blue" parts.blue 0 255 c.blue >>= fun blue =>
            .ok (.rgba red green blue (valueOr c.alpha parts.alpha)) := by
  rw [Components.change, magnitude_of_within halpha, hchannel]
  rfl

theorem change_hsl (halpha : Within 0 1 parts.alpha) (hchannel : parts.hasChannel = false)
    (hhsl : parts.hasHsl = true) (c : Color Float) :
    parts.change c =
      magnitude "saturation" parts.saturation 0 100 c.toHsl.saturation >>= fun saturation =>
        magnitude "lightness" parts.lightness 0 100 c.toHsl.lightness >>= fun lightness =>
          .ok (.ofHsl ⟨valueOr c.toHsl.hue parts.hue, saturation, lightness⟩
            (valueOr c.alpha parts.alpha)) := by
  rw [Components.change, magnitude_of_within halpha, hchannel, hhsl]
  rfl

theorem change_alpha (halpha : Within 0 1 parts.alpha) (hchannel : parts.hasChannel = false)
    (hhsl : parts.hasHsl = false) (c : Color Float) :
    parts.change c = .ok (c.withAlpha (valueOr c.alpha parts.alpha)) := by
  rw [Components.change, magnitude_of_within halpha, hchannel, hhsl]
  rfl

/-- Admitted components replace those of the color. -/
theorem Admitted.change (h : parts.Admitted) (c : Color Float) :
    parts.change c = .ok (parts.replace c) := by
  cases hchannel : parts.hasChannel with
  | true =>
    have hhsl : parts.hasHsl = false := Bool.eq_false_iff.2 fun hhsl => h.unmixed ⟨hchannel, hhsl⟩
    rw [change_channels h.alpha hchannel, magnitude_bind_of_within h.red,
      magnitude_bind_of_within h.green, magnitude_bind_of_within h.blue, replace, hhsl]
    rfl
  | false =>
    cases hhsl : parts.hasHsl with
    | true =>
      rw [change_hsl h.alpha hchannel hhsl, magnitude_bind_of_within h.saturation,
        magnitude_bind_of_within h.lightness, replace, hhsl]
      rfl
    | false =>
      obtain ⟨hred, hgreen, hblue⟩ := hasChannel_eq_false.1 hchannel
      rw [change_alpha h.alpha hchannel hhsl, replace, hhsl, hred, hgreen, hblue]
      rfl

/-- Components of one kind that are not admitted are refused: each is checked by the kind of
    change that uses it. -/
theorem change_of_not_admitted (hunmixed : ¬(parts.hasChannel = true ∧ parts.hasHsl = true))
    (h : ¬parts.Admitted) (c : Color Float) : Yields .argumentRange (parts.change c) none := by
  have hzero : ((0 : Float) == 0) = true := by decide +kernel
  have hone : ((1 : Float) == 1) = true := by decide +kernel
  have hwhole : ((100 : Float) == 100) = true := by decide +kernel
  have hlast : ((255 : Float) == 255) = true := by decide +kernel
  by_cases halpha : Within 0 1 parts.alpha
  swap
  · exact yields_none_bind (magnitude_of_not_within hzero hone halpha _ _)
  cases hchannel : parts.hasChannel with
  | true =>
    have hhsl : parts.hasHsl = false := Bool.eq_false_iff.2 fun hhsl => hunmixed ⟨hchannel, hhsl⟩
    obtain ⟨-, hsaturation, hlightness⟩ := hasHsl_eq_false.1 hhsl
    rw [change_channels halpha hchannel]
    by_cases hred : Within 0 255 parts.red
    swap
    · exact yields_none_bind (magnitude_of_not_within hzero hlast hred _ _)
    rw [magnitude_bind_of_within hred]
    by_cases hgreen : Within 0 255 parts.green
    swap
    · exact yields_none_bind (magnitude_of_not_within hzero hlast hgreen _ _)
    rw [magnitude_bind_of_within hgreen]
    have hblue : ¬Within 0 255 parts.blue := fun hblue =>
      h ⟨hunmixed, hred, hgreen, hblue, hsaturation ▸ within_none, hlightness ▸ within_none, halpha⟩
    exact yields_none_bind (magnitude_of_not_within hzero hlast hblue _ _)
  | false =>
    obtain ⟨hred, hgreen, hblue⟩ := hasChannel_eq_false.1 hchannel
    cases hhsl : parts.hasHsl with
    | true =>
      rw [change_hsl halpha hchannel hhsl]
      by_cases hsaturation : Within 0 100 parts.saturation
      swap
      · exact yields_none_bind (magnitude_of_not_within hzero hwhole hsaturation _ _)
      rw [magnitude_bind_of_within hsaturation]
      have hlightness : ¬Within 0 100 parts.lightness := fun hlightness =>
        h ⟨hunmixed, hred ▸ within_none, hgreen ▸ within_none, hblue ▸ within_none, hsaturation,
          hlightness, halpha⟩
      exact yields_none_bind (magnitude_of_not_within hzero hwhole hlightness _ _)
    | false =>
      obtain ⟨-, hsaturation, hlightness⟩ := hasHsl_eq_false.1 hhsl
      exact absurd ⟨hunmixed, hred ▸ within_none, hgreen ▸ within_none, hblue ▸ within_none,
        hsaturation ▸ within_none, hlightness ▸ within_none, halpha⟩ h

/-! ## What is kept -/

theorem valueOr_between {own : Float} (hn : Within low high n) (hown : low ≤ own ∧ own ≤ high) :
    low ≤ valueOr own n ∧ valueOr own n ≤ high := by
  cases n with
  | none => exact hown
  | some k => exact hn k rfl

theorem Admitted.alpha_replace (h : parts.Admitted) (hc : c.InGamut) :
    (parts.replace c).alpha = valueOr c.alpha parts.alpha := by
  obtain ⟨hbelow, habove⟩ := valueOr_between h.alpha hc.alpha
  rw [replace]
  split <;> exact Binary64.clamp_of_between hbelow habove

theorem Admitted.channels_replace (h : parts.Admitted) (hc : c.InGamut)
    (hhsl : parts.hasHsl = false) :
    (parts.replace c).red = valueOr c.red parts.red ∧
      (parts.replace c).green = valueOr c.green parts.green ∧
      (parts.replace c).blue = valueOr c.blue parts.blue := by
  obtain ⟨hred, hred'⟩ := valueOr_between h.red hc.red
  obtain ⟨hgreen, hgreen'⟩ := valueOr_between h.green hc.green
  obtain ⟨hblue, hblue'⟩ := valueOr_between h.blue hc.blue
  simp only [replace, hhsl, Bool.false_eq_true, if_false]
  exact ⟨Binary64.clamp_of_between hred hred', Binary64.clamp_of_between hgreen hgreen',
    Binary64.clamp_of_between hblue hblue'⟩

end Components

/-! ## Named arguments of plain parameters -/

/-- The argument that is given for a name, which is canonical. -/
def argument? (named : List (String × Value)) (name : String) : Option Value :=
  (named.find? fun a => canonical a.1 == name).map (·.2)

theorem argument?_cons (a : String × Value) (named : List (String × Value)) (name : String) :
    argument? (a :: named) name = if canonical a.1 = name then some a.2 else argument? named name := by
  by_cases h : canonical a.1 = name <;> simp [argument?, h]

theorem argument?_eq_none {named : List (String × Value)} {name : String}
    (h : name ∉ named.map fun a => canonical a.1) : argument? named name = none := by
  simp only [argument?, Option.map_eq_none_iff, List.find?_eq_none, beq_iff_eq]
  rintro a ha rfl
  exact h (List.mem_map_of_mem ha)

theorem mem_of_argument? {named : List (String × Value)} {name : String} {v : Value}
    (h : argument? named name = some v) : ∃ a ∈ named, a.2 = v := by
  obtain ⟨a, ha, rfl⟩ := Option.map_eq_some_iff.1 h
  exact ⟨a, List.mem_of_find?_eq_some ha, rfl⟩

namespace Slot

/-- The slots of plain parameters, with what is given for each name. -/
def ofOutline (outline : List (String × Bool)) (given : String → Option Value) : List Slot :=
  outline.map fun entry => ⟨.plain entry.1 entry.2, given entry.1⟩

variable {outline : List (String × Bool)} {given : String → Option Value} {key : String}

theorem ofOutline_congr {given' : String → Option Value}
    (h : ∀ entry ∈ outline, given entry.1 = given' entry.1) :
    ofOutline outline given = ofOutline outline given' :=
  List.map_congr_left fun entry hentry => by rw [h entry hentry]

/-- An argument for a name that had none is given for this name, and nothing else changes. -/
theorem place_ofOutline (hcanonical : ∀ entry ∈ outline, canonical entry.1 = entry.1)
    (hdistinct : (outline.map (·.1)).Nodup) (hkey : key ∈ outline.map (·.1))
    (hfree : given key = none) (v : Value) :
    place key v (ofOutline outline given) =
      .ok (ofOutline outline fun name => if name = key then some v else given name) := by
  induction outline with
  | nil => cases hkey
  | cons entry outline ih =>
    obtain ⟨hentry, hcanonical⟩ := List.forall_mem_cons.1 hcanonical
    obtain ⟨hfresh, hdistinct⟩ := List.nodup_cons.1 hdistinct
    have hname : canonical (Param.plain entry.1 entry.2).name = entry.1 := hentry
    rw [ofOutline, List.map_cons, place, hname]
    by_cases hsame : entry.1 = key
    · -- the other names are not this one
      have hothers : ofOutline outline given =
          ofOutline outline fun name => if name = key then some v else given name :=
        ofOutline_congr fun other hother => (if_neg fun hkey =>
          hfresh (List.mem_map.2 ⟨other, hother, hkey.trans hsame.symm⟩)).symm
      rw [← ofOutline, hothers]
      simp only [hsame, if_pos, hfree]
      simp [ofOutline, hsame]
    · have hrest : key ∈ outline.map (·.1) := (List.mem_cons.1 hkey).resolve_left (Ne.symm hsame)
      rw [← ofOutline, if_neg hsame, ih hcanonical hdistinct hrest]
      simp [ofOutline, hsame, Except.map]

/-- Arguments for distinct names that had none are all placed. -/
theorem placeNamed_ofOutline {named : List (String × Value)}
    (hcanonical : ∀ entry ∈ outline, canonical entry.1 = entry.1)
    (hdistinct : (outline.map (·.1)).Nodup) (hnames : (named.map fun a => canonical a.1).Nodup)
    (hknown : ∀ a ∈ named, canonical a.1 ∈ outline.map (·.1))
    (hfree : ∀ a ∈ named, given (canonical a.1) = none) :
    placeNamed named (ofOutline outline given) =
      .ok (ofOutline outline fun name => (argument? named name).or (given name)) := by
  induction named generalizing given with
  | nil => rfl
  | cons a named ih =>
    obtain ⟨hfresh, hnames⟩ := List.nodup_cons.1 hnames
    obtain ⟨hkey, hknown⟩ := List.forall_mem_cons.1 hknown
    obtain ⟨hnone, hfree⟩ := List.forall_mem_cons.1 hfree
    have hfree' : ∀ b ∈ named,
        (if canonical b.1 = canonical a.1 then some a.2 else given (canonical b.1)) = none := by
      intro b hb
      have hother : canonical b.1 ≠ canonical a.1 := fun hsame =>
        hfresh (List.mem_map.2 ⟨b, hb, hsame⟩)
      rw [if_neg hother]
      exact hfree b hb
    rw [placeNamed, place_ofOutline hcanonical hdistinct hkey hnone]
    simp only [Except.bind]
    rw [ih hnames hknown hfree']
    refine congrArg Except.ok (ofOutline_congr fun entry _ => ?_)
    rw [argument?_cons]
    by_cases hsame : canonical a.1 = entry.1
    · rw [if_pos hsame, if_pos hsame.symm, ← hsame, argument?_eq_none hfresh]
      rfl
    · rw [if_neg hsame, if_neg (Ne.symm hsame)]

/-- What is bound for plain parameters, of which those that cannot be null are given. -/
theorem entries_ofOutline (h : ∀ entry ∈ outline, entry.2 = true ∨ (given entry.1).isSome) :
    lacking (ofOutline outline given) = [] ∧
      entries (ofOutline outline given) =
        outline.map fun entry => (entry.1, (given entry.1).getD (.null none)) := by
  induction outline with
  | nil => exact ⟨rfl, rfl⟩
  | cons entry outline ih =>
    obtain ⟨hentry, hrest⟩ := List.forall_mem_cons.1 h
    obtain ⟨hlacking, hentries⟩ := ih hrest
    obtain ⟨name, nullable⟩ := entry
    have hslots : ofOutline ((name, nullable) :: outline) given =
        ⟨.plain name nullable, given name⟩ :: ofOutline outline given := rfl
    rw [hslots, lacking_cons, hlacking, entries, List.filterMap_cons, ← entries, hentries]
    cases hgiven : given name with
    | some v => simp [bare, entry?, Param.plain, hgiven]
    | none =>
      obtain rfl : nullable = true := hentry.resolve_right (by simp [hgiven])
      simp [bare, entry?, Param.plain, hgiven]

end Slot

/-! ## Components by name -/

namespace Components

/-- The names of the components. -/
def names : List String := ["red", "green", "blue", "hue", "saturation", "lightness", "alpha"]

/-- The number that is given for a name, if one is. -/
def number? (named : List (String × Value)) (name : String) : Option Number :=
  (argument? named name).bind fun v => v.asNumber.toOption

/-- The components that are given by name. -/
def ofNamed (named : List (String × Value)) : Components where
  red := number? named "red"
  green := number? named "green"
  blue := number? named "blue"
  hue := number? named "hue"
  saturation := number? named "saturation"
  lightness := number? named "lightness"
  alpha := number? named "alpha"

/-- Arguments that are components: with names of components, none of them twice, and each null or
    a number. -/
structure Named (named : List (String × Value)) : Prop where
  distinct : (named.map fun a => canonical a.1).Nodup
  known : ∀ a ∈ named, canonical a.1 ∈ names
  numbers : ∀ a ∈ named, (∃ l, a.2 = .null l) ∨ ∃ n l, a.2 = .number n l

variable {named : List (String × Value)} {c : Color Float} {l : Option Location}

/-- What the parameters are bound to. -/
def entries (color : Value) (named : List (String × Value)) : List (String × Value) :=
  ("color", color) :: names.map fun name => (name, (argument? named name).getD (.null none))

theorem Named.bound (h : Named named) (color : Value) (location : Option Location) :
    Builtin.changeColor.params.bound ⟨[color], named⟩ location =
      .ok (NameTable.empty.insertAll (entries color named)) := by
  let outline : List (String × Bool) := ("color", false) :: names.map fun name => (name, true)
  let given : String → Option Value := fun name => if name = "color" then some color else none
  have hother : ∀ name ∈ names, name ≠ "color" := by decide
  have hargument : argument? named "color" = none := argument?_eq_none fun hmem => by
    obtain ⟨a, ha, hname⟩ := List.mem_map.1 hmem
    exact hother _ (h.known a ha) hname
  let placed : String → Option Value := fun name => (argument? named name).or (given name)
  have hknown : ∀ a ∈ named, canonical a.1 ∈ outline.map (·.1) := fun a ha => by
    simpa [outline] using Or.inr (h.known a ha)
  have hslots : Slot.placeNamed named (Slot.ofOutline outline given) =
      .ok (Slot.ofOutline outline placed) :=
    Slot.placeNamed_ofOutline (by decide) (by decide) h.distinct hknown
      fun a ha => if_neg (hother _ (h.known a ha))
  have hplace : (Params.plain outline).place ⟨[color], named⟩ =
      .ok (Slot.ofOutline outline placed) := by
    rw [← hslots]
    rfl
  obtain ⟨hlacking, hentries⟩ : Slot.lacking (Slot.ofOutline outline placed) = [] ∧
      Slot.entries (Slot.ofOutline outline placed) =
        outline.map fun entry => (entry.1, (placed entry.1).getD (.null none)) :=
    Slot.entries_ofOutline (by simp [outline, placed, given])
  rw [Builtin.params_changeColor]
  change (Params.plain outline).bound _ _ = _
  rw [Params.bound, hplace, Except.bind, if_pos hlacking, hentries]
  have hcolor : placed "color" = some color := by
    simp only [placed, hargument]
    rfl
  have hgiven : ∀ name ∈ names, placed name = argument? named name := by
    intro name hname
    simp only [placed, given, if_neg (hother name hname), Option.or_none]
  have hrest : (Params.plain outline).rest.toList = [] := rfl
  have hnames : (names.map fun name => (name, true)).map (fun entry : String × Bool =>
      (entry.1, (placed entry.1).getD (.null none))) =
        names.map fun name => (name, (argument? named name).getD (.null none)) := by
    rw [List.map_map]
    refine List.map_congr_left fun name hname => ?_
    simp only [Function.comp_apply, hgiven name hname]
  rw [hrest, List.map_nil, List.append_nil, List.map_cons, hcolor, hnames]
  rfl

theorem Named.numberOrNull (h : Named named) {call : Invocation} {name : String}
    (harg : call.arg name = .ok ((argument? named name).getD (.null none))) :
    call.numberOrNull name = .ok (number? named name) := by
  cases hargument : argument? named name with
  | none =>
    rw [hargument] at harg
    rw [Invocation.numberOrNull_of_null harg, number?, hargument]
    rfl
  | some v =>
    rw [hargument] at harg
    obtain ⟨a, ha, rfl⟩ := mem_of_argument? hargument
    rcases h.numbers a ha with ⟨l, hnull⟩ | ⟨n, l, hnumber⟩
    · rw [Option.getD_some, hnull] at harg
      rw [Invocation.numberOrNull_of_null harg, number?, hargument, hnull]
      rfl
    · rw [Option.getD_some, hnumber] at harg
      rw [Invocation.numberOrNull_of_arg harg, number?, hargument, hnumber]
      rfl

open Classical in
/-- The answer to a color and components by name. -/
theorem Named.yields (h : Named named) {call : Invocation}
    (hbound : call.bound = NameTable.empty.insertAll (entries (.color c l) named)) :
    Yields .argumentRange (Builtin.changeColor.answer call)
      ((if (ofNamed named).Admitted then some ((ofNamed named).replace c) else none).map
        Answer.color) := by
  have hkeys : ((entries (.color c l) named).map fun entry => canonical entry.1).Nodup := by
    have hnames : ((entries (.color c l) named).map (·.1)).map canonical =
        ("color" :: names).map canonical := rfl
    rw [← Function.comp_def canonical, ← List.map_map, hnames]
    decide
  have harg (name : String) (hname : name ∈ names) :
      call.arg name = .ok ((argument? named name).getD (.null none)) :=
    Invocation.arg_of_insertAll hbound hkeys
      (List.mem_cons_of_mem _ (List.mem_map.2 ⟨name, hname, rfl⟩))
  have hcolor : call.color "color" = .ok c := by
    rw [Invocation.color, Invocation.arg_of_insertAll hbound hkeys List.mem_cons_self]
    rfl
  have hnumber (name : String) (hname : name ∈ names) :
      call.numberOrNull name = .ok (number? named name) := h.numberOrNull (harg name hname)
  have hread : Components.read call =
      if (ofNamed named).hasChannel && (ofNamed named).hasHsl then .error (.ofCause .mixedComponents)
      else .ok (ofNamed named) := by
    rw [Components.read, hnumber "red" (by decide), hnumber "green" (by decide),
      hnumber "blue" (by decide), hnumber "hue" (by decide), hnumber "saturation" (by decide),
      hnumber "lightness" (by decide), hnumber "alpha" (by decide)]
    rfl
  refine yields_map ?_
  change Yields .argumentRange (call.color "color" >>= fun c =>
    Components.read call >>= fun parts => parts.change c) _
  rw [hcolor, hread]
  by_cases hmixed : (ofNamed named).hasChannel = true ∧ (ofNamed named).hasHsl = true
  · rw [if_pos (by simpa using hmixed), if_neg fun hadmitted => hadmitted.unmixed hmixed]
    exact ⟨_, rfl, rfl⟩
  · rw [if_neg (by simpa using hmixed)]
    by_cases hadmitted : (ofNamed named).Admitted
    · rw [if_pos hadmitted]
      exact hadmitted.change c
    · rw [if_neg hadmitted]
      exact change_of_not_admitted hmixed hadmitted c

end Components

/-! ## Calls -/

namespace Session

open Components

/-- A color and any components of it by name, each null or a number with whatever unit and
    magnitude. They are taken exactly if channels are not given together with hue, saturation or
    lightness and each one is in its range, and otherwise the range is what is wrong. The new
    color has the given opacity or its own, and unless hue, saturation or lightness is given each
    of its channels is the given one or its own, to the last bit. -/
theorem changeColor_replaces (options : Options) (fuel : Nat) {c : Color Float} (hc : c.InGamut)
    {named : List (String × Value)} (hnamed : Named named) (l place : Option Location)
    (m : Machine) :
    let parts := ofNamed named
    let o := callAlone ⟨.standard, options⟩ (fuel + 1) "change-color" ⟨[.color c l], named⟩ place m
    ((∃ v n, o = .ok v n) ↔ parts.Admitted) ∧
    (∀ i n, o = .error i n → ∃ e, i = .error e ∧ e.kind = .argumentRange) ∧
    ∀ v n, o = .ok v n → ∃ c', v = .color c' place ∧
      c'.alpha = valueOr c.alpha parts.alpha ∧
      (parts.hasHsl = false →
        c'.red = valueOr c.red parts.red ∧ c'.green = valueOr c.green parts.green ∧
          c'.blue = valueOr c.blue parts.blue) := by
  classical
  intro parts o
  have ho : Outcome.IsColor .argumentRange place o
      (if parts.Admitted then some (parts.replace c) else none) :=
    colors_callAlone (b := Builtin.changeColor) (by simp [Builtin.all, Builtin.onComponents])
      (by decide) (hnamed.bound _ _) fun _ => hnamed.yields
  refine ⟨?_, fun i n => ho.of_error, fun v n hok => ?_⟩
  · rw [ho.ok_iff]
    by_cases hadmitted : parts.Admitted <;> simp [hadmitted]
  · obtain ⟨c', hc', rfl⟩ := ho.of_ok hok
    by_cases hadmitted : parts.Admitted
    · rw [if_pos hadmitted] at hc'
      cases hc'
      exact ⟨_, rfl, hadmitted.alpha_replace hc, hadmitted.channels_replace hc⟩
    · rw [if_neg hadmitted] at hc'
      cases hc'

/-- A color with another green and opacity, and with the blue that it had. -/
theorem changeColor_green_alpha :
    let named : List (String × Value) :=
      [("alpha", .number (.unitless 0.5) none), ("green", .number (.unitless 10) none),
        ("blue", .null none)]
    let o := callAlone ⟨.standard, .standard⟩ 1 "change-color"
      ⟨[.color (.rgba 51 102 153 1) none], named⟩ none .fresh
    ∃ c' n, o = .ok (.color c' none) n ∧ c'.red = 51 ∧ c'.green = 10 ∧ c'.blue = 153 ∧
      c'.alpha = 0.5 := by
  intro named o
  have hnamed : Named named :=
    ⟨by decide, by decide, by simp [named]⟩
  have hadmitted : (ofNamed named).Admitted := by
    refine ⟨by decide, within_none, ?_, within_none, within_none, within_none, ?_⟩
    · rintro k ⟨⟩
      decide +kernel
    · rintro k ⟨⟩
      decide +kernel
  obtain ⟨hok, -, hkept⟩ :=
    changeColor_replaces .standard 0 (Color.inGamut_rgba 51 102 153 1) hnamed none none .fresh
  obtain ⟨v, n, hv⟩ := hok.2 hadmitted
  obtain ⟨c', rfl, halpha, hchannels⟩ := hkept v n hv
  obtain ⟨hred, hgreen, hblue⟩ := hchannels rfl
  exact ⟨c', n, hv, hred.trans (by decide +kernel), hgreen, hblue.trans (by decide +kernel), halpha⟩

end Session

end StyleScript
