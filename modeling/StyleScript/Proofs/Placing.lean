-- SUMMARY: Which argument is placed on which parameter.
import StyleScript.Proofs.Outcome

/-!
# Placing arguments

Placing goes over the parameters as slots. It changes what the slots are given and
never the slots themselves, so a position among the parameters is the position of
its slot.
-/

namespace StyleScript

namespace Slot

/-- The parameters of slots. -/
def params (slots : List Slot) : List Param := slots.map (·.param)

@[simp] theorem params_nil : params [] = [] := rfl

@[simp] theorem params_cons (slot : Slot) (slots : List Slot) :
    params (slot :: slots) = slot.param :: params slots := rfl

theorem params_positional (ps : List Param) (vs : List Value) : params (positional ps vs) = ps := by
  induction ps generalizing vs with
  | nil => rfl
  | cons p ps ih =>
    cases vs with
    | nil => rw [positional, params_cons, ih]
    | cons v vs => rw [positional, params_cons, ih]

theorem params_place {key : String} {v : Value} {slots slots' : List Slot}
    (h : place key v slots = .ok slots') : params slots' = params slots := by
  induction slots generalizing slots' with
  | nil => cases h
  | cons slot slots ih =>
    unfold place at h
    split at h
    · split at h
      · cases h
      · cases h
        rfl
    · cases hrest : place key v slots with
      | error fault =>
        rw [hrest] at h
        cases h
      | ok rest =>
        rw [hrest] at h
        cases h
        rw [params_cons, params_cons, ih hrest]

theorem params_placeNamed {named : List (String × Value)} {slots slots' : List Slot}
    (h : placeNamed named slots = .ok slots') : params slots' = params slots := by
  induction named generalizing slots with
  | nil =>
    cases h
    rfl
  | cons entry named ih =>
    unfold placeNamed at h
    cases hplace : place (canonical entry.1) entry.2 slots with
    | error fault =>
      rw [hplace] at h
      cases h
    | ok placed =>
      rw [hplace] at h
      rw [ih h, params_place hplace]

/-! ## Named arguments -/

/-- The canonical names of the parameters of slots. -/
def keys (slots : List Slot) : List String := (params slots).map fun p => canonical p.name

/-- An argument is placed on a parameter of its name that had none. -/
theorem place_eq_ok {key : String} {v : Value} {slots slots' : List Slot}
    (h : place key v slots = .ok slots') :
    ∃ i slot, slots[i]? = some slot ∧ canonical slot.param.name = key ∧ slot.given = none ∧
      slots' = slots.set i { slot with given := some v } := by
  induction slots generalizing slots' with
  | nil => cases h
  | cons slot slots ih =>
    unfold place at h
    split at h
    · rename_i hkey
      cases hgiven : slot.given with
      | some u =>
        rw [hgiven] at h
        cases h
      | none =>
        rw [hgiven] at h
        cases h
        exact ⟨0, slot, rfl, hkey, hgiven, rfl⟩
    · cases hrest : place key v slots with
      | error fault =>
        rw [hrest] at h
        cases h
      | ok rest =>
        rw [hrest] at h
        cases h
        obtain ⟨i, other, hget, hkey, hgiven, rfl⟩ := ih hrest
        exact ⟨i + 1, other, hget, hkey, hgiven, rfl⟩

/-- With distinct names, a name is that of one slot only. -/
theorem index_unique {slots : List Slot} (hkeys : (keys slots).Nodup) {i j : Nat} {a b : Slot}
    (ha : slots[i]? = some a) (hb : slots[j]? = some b)
    (hname : canonical a.param.name = canonical b.param.name) : i = j := by
  have hi : (keys slots)[i]? = some (canonical a.param.name) := by
    simp only [keys, params, List.getElem?_map, ha, Option.map_some]
  have hj : (keys slots)[j]? = some (canonical b.param.name) := by
    simp only [keys, params, List.getElem?_map, hb, Option.map_some]
  have hlt : i < (keys slots).length := (List.getElem?_eq_some_iff.1 hi).1
  exact (List.getElem?_inj hlt hkeys).1 (by rw [hi, hj, hname])

/-- Slots after named arguments were placed on them. Each argument is on one slot that
    had none, and no two are on the same one. -/
structure Placed (named : List (String × Value)) (slots slots' : List Slot) : Prop where
  kept : ∀ (i : Nat) (slot : Slot) v, slots[i]? = some slot → slot.given = some v → slots'[i]? = some slot
  filled : ∀ (i : Nat) (slot : Slot) a, slots[i]? = some slot → slot.given = none → a ∈ named →
    canonical a.1 = canonical slot.param.name → slots'[i]? = some { slot with given := some a.2 }
  free : ∀ (i : Nat) (slot : Slot), slots[i]? = some slot → slot.given = none →
    (∀ a ∈ named, canonical a.1 ≠ canonical slot.param.name) → slots'[i]? = some slot
  distinct : (named.map fun a => canonical a.1).Nodup
  known : ∀ a ∈ named, ∃ (i : Nat) (slot : Slot), slots[i]? = some slot ∧ slot.given = none ∧
    canonical a.1 = canonical slot.param.name

theorem Placed.cons {name : String} {v : Value} {named : List (String × Value)}
    {slots slots' : List Slot} (hkeys : (keys slots).Nodup) {j : Nat} {slot : Slot}
    (hget : slots[j]? = some slot) (hname : canonical slot.param.name = canonical name)
    (hgiven : slot.given = none)
    (h : Placed named (slots.set j { slot with given := some v }) slots') :
    Placed ((name, v) :: named) slots slots' := by
  have hlt : j < slots.length := (List.getElem?_eq_some_iff.1 hget).1
  have hset : (slots.set j { slot with given := some v })[j]? =
      some { slot with given := some v } := List.getElem?_set_self hlt
  have hother {i : Nat} (hne : i ≠ j) :
      (slots.set j { slot with given := some v })[i]? = slots[i]? := List.getElem?_set_ne hne.symm
  -- The slot is taken, so none of the other arguments has its name.
  have hfresh (a : String × Value) (ha : a ∈ named) : canonical a.1 ≠ canonical name := by
    intro hsame
    obtain ⟨i, other, hi, hnone, hkey⟩ := h.known a ha
    by_cases hij : i = j
    · rw [hij, hset] at hi
      cases hi
      cases hnone
    · rw [hother hij] at hi
      exact hij (index_unique hkeys hi hget (by rw [← hkey, hsame, hname]))
  refine ⟨?_, ?_, ?_, ?_, ?_⟩
  · intro i a u hi hu
    have hij : i ≠ j := by
      rintro rfl
      rw [hget] at hi
      cases hi
      rw [hgiven] at hu
      cases hu
    exact h.kept i a u (by rw [hother hij, hi]) hu
  · intro i a arg hi hnone harg hkey
    rcases List.mem_cons.1 harg with rfl | harg
    · obtain rfl := index_unique hkeys hi hget (by rw [hname, hkey])
      rw [hget] at hi
      cases hi
      exact h.kept i _ v hset rfl
    · have hij : i ≠ j := by
        rintro rfl
        rw [hget] at hi
        cases hi
        exact hfresh arg harg (by rw [hkey, hname])
      exact h.filled i a arg (by rw [hother hij, hi]) hnone harg hkey
  · intro i a hi hnone hall
    have hij : i ≠ j := by
      rintro rfl
      rw [hget] at hi
      cases hi
      exact hall _ List.mem_cons_self hname.symm
    exact h.free i a (by rw [hother hij, hi]) hnone fun arg harg =>
      hall arg (List.mem_cons_of_mem _ harg)
  · refine List.nodup_cons.2 ⟨fun hmem => ?_, h.distinct⟩
    obtain ⟨a, ha, hsame⟩ := List.mem_map.1 hmem
    exact hfresh a ha hsame
  · intro arg harg
    rcases List.mem_cons.1 harg with rfl | harg
    · exact ⟨j, slot, hget, hgiven, hname.symm⟩
    · obtain ⟨i, other, hi, hnone, hkey⟩ := h.known arg harg
      have hij : i ≠ j := by
        rintro rfl
        rw [hset] at hi
        cases hi
        cases hnone
      exact ⟨i, other, by rw [← hother hij, hi], hnone, hkey⟩

theorem placed_placeNamed {named : List (String × Value)} {slots slots' : List Slot}
    (hkeys : (keys slots).Nodup) (h : placeNamed named slots = .ok slots') :
    Placed named slots slots' := by
  induction named generalizing slots with
  | nil =>
    cases h
    exact ⟨fun _ _ _ hi _ => hi, nofun, fun _ _ hi _ _ => hi, List.nodup_nil, nofun⟩
  | cons entry named ih =>
    obtain ⟨name, v⟩ := entry
    unfold placeNamed at h
    cases hplace : place (canonical name) v slots with
    | error fault =>
      rw [hplace] at h
      cases h
    | ok placed =>
      rw [hplace] at h
      obtain ⟨j, slot, hget, hname, hgiven, hset⟩ := place_eq_ok hplace
      have hkeys' : (keys placed).Nodup := by
        rw [keys, params_place hplace]
        exact hkeys
      have hrest := ih hkeys' h
      rw [hset] at hrest
      exact .cons hkeys hget hname hgiven hrest

/-- Positional arguments are placed in order. -/
theorem getElem?_positional (ps : List Param) (vs : List Value) (i : Nat) :
    (positional ps vs)[i]? = ps[i]?.map fun p => ⟨p, vs[i]?⟩ := by
  induction ps generalizing vs i with
  | nil => rfl
  | cons p ps ih =>
    cases vs with
    | nil =>
      cases i with
      | zero => rfl
      | succ i =>
        rw [positional, List.getElem?_cons_succ, List.getElem?_cons_succ, ih]
        rfl
    | cons v vs =>
      cases i with
      | zero => rfl
      | succ i =>
        rw [positional, List.getElem?_cons_succ, List.getElem?_cons_succ, List.getElem?_cons_succ,
          ih]

end Slot

/-- Placing succeeds only if surplus arguments have a rest parameter to go to. -/
theorem Params.place_eq_ok {p : Params} {args : Args} {slots : List Slot}
    (h : p.place args = .ok slots) :
    ¬(p.fixed.length < args.positional.length ∧ p.rest = none) ∧
      Slot.placeNamed args.named (Slot.positional p.fixed args.positional) = .ok slots := by
  unfold Params.place at h
  simp only at h
  split at h
  · cases h
  · rename_i hsurplus
    exact ⟨hsurplus, h⟩

theorem Params.params_of_place {p : Params} {args : Args} {slots : List Slot}
    (h : p.place args = .ok slots) : Slot.params slots = p.fixed := by
  rw [Slot.params_placeNamed (place_eq_ok h).2, Slot.params_positional]

end StyleScript
