import ScriptMachine.Proofs.Arrays.Uses
import ScriptMachine.Proofs.Numbers.Words

/-!
# Final properties

A property that is not configurable stays as far as it is final when its object is changed, with two
exceptions. An array that is cut loses its items from there on, final or not. An array that
grows gets a longer length, read-only or not.
-/

namespace ScriptMachine

/-- As far as a property is final, another one is like it. -/
structure Property.KeptAs (p q : Property) : Prop where
  configurable : q.configurable = false
  enumerable : q.enumerable = p.enumerable
  readOnly : p.writable = false → q.writable = false ∧ q.value = p.value

namespace Property.KeptAs

variable {p q r : Property}

theorem refl (h : p.configurable = false) : p.KeptAs p :=
  ⟨h, rfl, fun hreadonly => ⟨hreadonly, rfl⟩⟩

theorem trans (h : p.KeptAs q) (h' : q.KeptAs r) : p.KeptAs r := by
  refine ⟨h'.configurable, h'.enumerable.trans h.enumerable, fun hreadonly => ?_⟩
  obtain ⟨hq, hvalue⟩ := h.readOnly hreadonly
  obtain ⟨hr, hvalue'⟩ := h'.readOnly hq
  exact ⟨hr, hvalue'.trans hvalue⟩

/-- A property that may be written gets another value. -/
theorem of_writable (h : p.configurable = false) (hwritable : p.writable = true) (v : Value) :
    p.KeptAs { p with value := v } :=
  ⟨h, rfl, fun hreadonly => by rw [hwritable] at hreadonly; cases hreadonly⟩

end Property.KeptAs

/-- A definition that is accepted changes nothing that is final. -/
theorem Descriptor.keptAs_of_merge? {d : Descriptor} {p q : Property} (h : d.merge? p = some q)
    (hfinal : p.configurable = false) : p.KeptAs q := by
  unfold merge? at h
  simp only [hfinal, Bool.not_false, Bool.true_and, Option.ite_none_left_eq_some,
    Option.some.injEq, Bool.or_eq_true, not_or, Bool.and_eq_true, Bool.not_eq_true',
    beq_iff_eq, not_and] at h
  obtain ⟨⟨⟨⟨hconfigurable, henumerable⟩, hwritable⟩, hvalue⟩, rfl⟩ := h
  refine ⟨?_, ?_, fun hreadonly => ⟨?_, ?_⟩⟩
  · cases hd : d.configurable with
    | none => rfl
    | some b =>
      cases b with
      | true => exact absurd hd hconfigurable
      | false => rfl
  · cases hd : d.enumerable with
    | none => rfl
    | some b => simpa [hd] using henumerable
  · cases hd : d.writable with
    | none => exact hreadonly
    | some b =>
      cases b with
      | true => exact absurd hd (hwritable hreadonly)
      | false => rfl
  · cases hd : d.value with
    | none => rfl
    | some v => exact Number.eq_of_sameValue (by simpa [hd, hreadonly] using hvalue)

/-- A definition of a property that is there keeps what is final of it. -/
theorem Property.KeptAs.of_definedProperty {o : Object} {key : String} {d : Descriptor}
    {p q : Property} (h : Machine.definedProperty o key d = .ok q)
    (hp : o.properties.get? key = some p) (hfinal : p.configurable = false) : p.KeptAs q := by
  unfold Machine.definedProperty at h
  rw [hp] at h
  dsimp only at h
  split at h
  · rename_i hmerge
    cases h
    exact Descriptor.keptAs_of_merge? hmerge hfinal
  · cases h

namespace Object

/-! ## What a change leaves -/

/-- If it is an array, an object has a count as its length and its items below that. -/
def Measured (o : Object) : Prop := o.isArray = true → ∃ n, o.Extent n

/-- The length of an object is read-only. -/
def FixedLength (o : Object) : Prop :=
  ∃ p, o.properties.get? "length" = some p ∧ p.writable = false

/-- How an array loses a property that is not configurable. -/
inductive Loses (key : String) (p : Property) (o o' : Object) : Prop where
  /-- The property is an item, and the array is cut below it. -/
  | cut (i : Nat) (harray : o.isArray = true) (hitem : arrayIndex? key = some i)
    (hcut : o'.length ≤ i)
  /-- The property is the length and read-only, and the array grows. -/
  | grown (harray : o.isArray = true) (hkey : key = "length") (hreadonly : p.writable = false)
    (hgrown : o.length < o'.length)

/-- A change that takes nothing from the final properties of an object but what it cuts off an array,
and the length of one that grows. -/
structure Turns (o o' : Object) : Prop where
  isArray : o'.isArray = o.isArray
  measured : o'.Measured
  length : o.isArray = true → o.FixedLength →
    o.length < o'.length ∨ o'.length = o.length ∧ o'.FixedLength
  others : ∀ key p, (o.isArray = true → key ≠ "length") → o.properties.get? key = some p →
    p.configurable = false → (∃ q, o'.properties.get? key = some q ∧ p.KeptAs q) ∨
      ∃ i, o.isArray = true ∧ arrayIndex? key = some i ∧ o'.length ≤ i

/-- What becomes of an object, provided that it is measured. -/
def Turned (o o' : Object) : Prop := o.Measured → o.Turns o'

variable {o o' o₁ : Object} {key : String} {v : Value} {d : Descriptor} {p : Property} {n k : Nat}

theorem Turns.refl (hm : o.Measured) : o.Turns o where
  isArray := rfl
  measured := hm
  length _ hfixed := .inr ⟨rfl, hfixed⟩
  others _ p _ hp hfinal := .inl ⟨p, hp, .refl hfinal⟩

/-- A property that is not configurable is kept, or lost as arrays lose one. -/
theorem Turns.final (h : o.Turns o') (hm : o.Measured) (hp : o.properties.get? key = some p)
    (hfinal : p.configurable = false) :
    (∃ q, o'.properties.get? key = some q ∧ p.KeptAs q) ∨ o.Loses key p o' := by
  by_cases hkey : o.isArray = true → key ≠ "length"
  · rcases h.others key p hkey hp hfinal with hkept | ⟨i, harray, hitem, hcut⟩
    · exact .inl hkept
    · exact .inr (.cut i harray hitem hcut)
  · obtain ⟨harray, rfl⟩ : o.isArray = true ∧ key = "length" := by simpa using hkey
    obtain ⟨n, hn⟩ := hm harray
    obtain ⟨k, hk⟩ := h.measured (h.isArray.trans harray)
    obtain ⟨writable, hlength⟩ := hn.length
    obtain ⟨writable', hlength'⟩ := hk.length
    obtain rfl := Option.some.inj (hp.symm.trans hlength)
    cases writable with
    | true => exact .inl ⟨_, hlength', rfl, rfl, nofun⟩
    | false =>
      rcases h.length harray ⟨_, hlength, rfl⟩ with hgrown | ⟨hsame, q, hq, hreadonly⟩
      · exact .inr (.grown harray rfl rfl hgrown)
      · rw [hn.length_eq, hk.length_eq] at hsame
        obtain rfl := Option.some.inj (hq.symm.trans hlength')
        exact .inl ⟨_, hlength', rfl, rfl, fun _ => ⟨hreadonly, hsame ▸ rfl⟩⟩

/-- One change after another. The first one does not make an array shorter, and the second one does not
make one shorter that has grown. -/
theorem Turns.trans (h : o.Turns o₁) (h' : o₁.Turns o') (hm : o.Measured)
    (hle : o.isArray = true → o.length ≤ o₁.length)
    (hle' : o.isArray = true → o₁.length ≤ o.length ∨ o₁.length ≤ o'.length) : o.Turns o' where
  isArray := h'.isArray.trans h.isArray
  measured := h'.measured
  length harray hfixed := by
    have harray₁ := h.isArray.trans harray
    have := hle' harray
    rcases h.length harray hfixed with hgrown | ⟨hsame, hfixed₁⟩
    · exact .inl (by omega)
    · rcases h'.length harray₁ hfixed₁ with hgrown | ⟨hsame', hfixed'⟩
      · exact .inl (by omega)
      · exact .inr ⟨by omega, hfixed'⟩
  others key p hkey hp hfinal := by
    rcases h.others key p hkey hp hfinal with ⟨q, hq, hkept⟩ | ⟨i, harray, hitem, hcut⟩
    · have hkey₁ : o₁.isArray = true → key ≠ "length" := fun h₁ => hkey (h.isArray.symm.trans h₁)
      rcases h'.others key q hkey₁ hq hkept.configurable with
        ⟨r, hr, hkept'⟩ | ⟨i, harray, hitem, hcut⟩
      · exact .inl ⟨r, hr, hkept.trans hkept'⟩
      · exact .inr ⟨i, h.isArray.symm.trans harray, hitem, hcut⟩
    · obtain ⟨n, hn⟩ := hm harray
      have hbelow := hn.above key i ((mem_keys_iff ..).2 (hp ▸ rfl)) hitem
      have := hle harray
      rw [hn.length_eq] at this
      omega

/-- A change that leaves the length of an array as it is. -/
theorem Turns.of_extent (hm : o.Measured) (hclass : o'.isArray = o.isArray)
    (hextent : ∀ n, o.Extent n → o'.Extent n)
    (hlength : o.isArray = true → o'.properties.get? "length" = o.properties.get? "length")
    (hothers : ∀ key p, (o.isArray = true → key ≠ "length") → o.properties.get? key = some p →
      p.configurable = false → ∃ q, o'.properties.get? key = some q ∧ p.KeptAs q) :
    o.Turns o' where
  isArray := hclass
  measured harray := by
    obtain ⟨n, hn⟩ := hm (hclass.symm.trans harray)
    exact ⟨n, hextent n hn⟩
  length harray hfixed := by
    obtain ⟨n, hn⟩ := hm harray
    refine .inr ⟨(hextent n hn).length_eq.trans hn.length_eq.symm, ?_⟩
    rw [FixedLength, hlength harray]
    exact hfixed
  others key p hkey hp hfinal := .inl (hothers key p hkey hp hfinal)

/-- An array grows. -/
theorem Turns.of_grown (hn : o.Extent n) (hk : o'.Extent k) (hgrown : n < k)
    (hothers : ∀ key p, key ≠ "length" → o.properties.get? key = some p →
      p.configurable = false → ∃ q, o'.properties.get? key = some q ∧ p.KeptAs q) :
    o.Turns o' where
  isArray := hk.isArray.trans hn.isArray.symm
  measured _ := ⟨k, hk⟩
  length _ _ := by
    rw [hn.length_eq, hk.length_eq]
    exact .inl hgrown
  others key p hkey hp hfinal := .inl (hothers key p (hkey hn.isArray) hp hfinal)

/-- An array grows for a name where it has to. -/
theorem Turns.of_reach (hm : o.Measured) (hextent : ∀ n, o.Extent n → o'.Extent (reach n key))
    (hfits : o.grownIndex? key = none → o'.isArray = o.isArray ∧
      (o.isArray = true → o'.properties.get? "length" = o.properties.get? "length"))
    (hothers : ∀ key p, (o.isArray = true → key ≠ "length") → o.properties.get? key = some p →
      p.configurable = false → ∃ q, o'.properties.get? key = some q ∧ p.KeptAs q) :
    o.Turns o' := by
  cases hgrown : o.grownIndex? key with
  | none =>
    obtain ⟨hclass, hlength⟩ := hfits hgrown
    exact .of_extent hm hclass (fun n hn => hn.reach_of_fits hgrown ▸ hextent n hn) hlength hothers
  | some i =>
    obtain ⟨n, hn⟩ := hm (isArray_of_grownIndex? hgrown)
    obtain ⟨-, hle⟩ := hn.grownIndex?_eq_some_iff.1 hgrown
    refine .of_grown hn (hextent n hn) ?_ fun other p hother => hothers other p fun _ => hother
    rw [hn.reach_of_grownIndex? hgrown]
    omega

/-! ## Edits -/

/-- A name is added that an array may have to grow for. -/
theorem get?_added_of_ne {other : String} (hother : o.isArray = true → other ≠ "length")
    (hne : other ≠ key) (v : Value) :
    (o.added key v).properties.get? other = o.properties.get? other := by
  cases hgrown : o.grownIndex? key with
  | none =>
    rw [added_of_fits hgrown]
    exact (get?_put ..).trans (if_neg hne)
  | some i =>
    rw [added_of_grownIndex? hgrown, get?_put, if_neg (hother (isArray_of_grownIndex? hgrown)),
      get?_put, if_neg hne]

theorem get?_defined {other : String} (hother : o.isArray = true → other ≠ "length")
    (p : Property) : (o.defined key p).properties.get? other =
      if other = key then some p else o.properties.get? other := by
  cases hgrown : o.grownIndex? key with
  | none =>
    rw [defined_of_fits hgrown]
    exact get?_put ..
  | some i =>
    exact (get?_defined_of_grownIndex? hgrown p other).trans
      (if_neg (hother (isArray_of_grownIndex? hgrown)))

theorem Reshelled.turned (h : o.Reshelled o') : o.Turned o' := by
  intro hm
  apply Turns.of_extent hm h.isArray
  · intro n hn
    refine ⟨h.isArray.trans hn.isArray, hn.bounded, ?_, ?_⟩
    · rw [h.properties]
      exact hn.length
    · rw [h.properties]
      exact hn.above
  · intro _
    rw [h.properties]
  · intro key p _ hp hfinal
    exact ⟨p, h.properties ▸ hp, .refl hfinal⟩

theorem Erased.turned (h : o.Erased key o') : o.Turned o' := by
  intro hm
  obtain ⟨p, hp, hconfigurable⟩ := h
  have hne {other : String} {q : Property} (hq : o.properties.get? other = some q)
      (hfinal : q.configurable = false) : other ≠ key := by
    rintro rfl
    obtain rfl := Option.some.inj (hp.symm.trans hq)
    rw [hfinal] at hconfigurable
    cases hconfigurable
  refine .of_extent hm rfl (fun n hn => hn.erase hp hconfigurable) ?_ ?_
  · intro harray
    obtain ⟨n, hn⟩ := hm harray
    obtain ⟨writable, hlength⟩ := hn.length
    exact (Table.get?_erase ..).trans (if_neg (hne hlength rfl))
  · intro other q _ hq hfinal
    exact ⟨q, (Table.get?_erase ..).trans ((if_neg (hne hq hfinal)).trans hq), .refl hfinal⟩

/-- A resized array has lost the items behind its new length and nothing else. -/
theorem get?_resize_or_cut (hother : key ≠ "length") (hp : o.properties.get? key = some p) :
    (o.resize k).properties.get? key = some p ∨ ∃ i, arrayIndex? key = some i ∧ k ≤ i := by
  rw [get?_resize, if_neg hother, hp]
  cases hitem : arrayIndex? key with
  | none => simp
  | some i =>
    by_cases hi : i < k
    · simp [hi]
    · exact .inr ⟨i, rfl, Nat.le_of_not_lt hi⟩

/-- An array is resized, and whether its length may be written changes only towards read-only. -/
theorem Turns.of_resize (hn : o.Extent n) (hk : o'.Extent k)
    (hfixed : o.FixedLength → k = n ∧ o'.FixedLength)
    (hothers : ∀ key, key ≠ "length" →
      o'.properties.get? key = (o.resize k).properties.get? key) : o.Turns o' where
  isArray := hk.isArray.trans hn.isArray.symm
  measured _ := ⟨k, hk⟩
  length _ h := by
    rw [hn.length_eq, hk.length_eq]
    exact .inr (hfixed h)
  others key p hkey hp hfinal := by
    rw [hothers key (hkey hn.isArray), hk.length_eq]
    rcases get?_resize_or_cut (k := k) (hkey hn.isArray) hp with hkept | ⟨i, hitem, hcut⟩
    · exact .inl ⟨p, hkept, .refl hfinal⟩
    · exact .inr ⟨i, hn.isArray, hitem, hcut⟩

theorem Assigned.turned (h : o.Assigned key v o') : o.Turned o' := by
  intro hm
  cases h with
  | value p hp hwritable hplain =>
    have hkey : o.isArray = true → "length" ≠ key := by
      rintro harray rfl
      simp [harray] at hplain
    refine .of_extent hm rfl (fun n hn => hn.modify (hkey hn.isArray).symm _) ?_ ?_
    · intro harray
      exact (Table.get?_modify ..).trans (if_neg (hkey harray))
    · intro other q _ hq hfinal
      rw [Table.get?_modify]
      split
      · rename_i hsame
        subst hsame
        obtain rfl := Option.some.inj (hp.symm.trans hq)
        exact ⟨_, congrArg _ hp, .of_writable hfinal hwritable v⟩
      · exact ⟨q, hq, .refl hfinal⟩
  | length p k harray _ hp hwritable hk =>
    obtain ⟨n, hn⟩ := hm harray
    refine .of_resize hn (hn.resize (Machine.lt_of_arrayLength? hk)) ?_ fun _ _ => rfl
    rintro ⟨q, hq, hreadonly⟩
    obtain rfl := Option.some.inj (hp.symm.trans hq)
    rw [hwritable] at hreadonly
    cases hreadonly
  | added hextensible hnew =>
    have hothers (other : String) (q : Property) (hother : o.isArray = true → other ≠ "length")
        (hq : o.properties.get? other = some q) (hfinal : q.configurable = false) :
        ∃ q', (o.added key v).properties.get? other = some q' ∧ q.KeptAs q' := by
      have hne : other ≠ key := by
        rintro rfl
        rw [hq] at hnew
        cases hnew
      exact ⟨q, (get?_added_of_ne hother hne v).trans hq, .refl hfinal⟩
    have hkey (n : Nat) (hn : o.Extent n) : key ≠ "length" := by
      rintro rfl
      exact (Table.get?_eq_none_iff _).1 hnew hn.mem_length
    refine .of_reach hm (fun n hn => hn.added (hkey n hn) v) (fun hfits => ?_) hothers
    rw [added_of_fits hfits]
    refine ⟨rfl, fun harray => ?_⟩
    obtain ⟨n, hn⟩ := hm harray
    exact (get?_put ..).trans (if_neg (hkey n hn).symm)

theorem get?_limited_of_ne {other : String} (hother : other ≠ "length") (o : Object)
    (writable : Bool) : (o.limited writable).properties.get? other = o.properties.get? other :=
  (Table.get?_modify ..).trans (if_neg hother)

theorem fixedLength_limited (hn : o.Extent n) : (o.limited false).FixedLength := by
  obtain ⟨writable, hlength⟩ := hn.length
  exact ⟨_, (Table.get?_modify ..).trans ((if_pos rfl).trans (congrArg _ hlength)), rfl⟩

/-- A definition leaves a read-only length read-only, and gives it no other value. -/
theorem fixed_of_definedProperty {merged : Property} (hn : o.Extent n) (hfixed : o.FixedLength)
    (hmerged : Machine.definedProperty o "length" d = .ok merged) :
    merged.writable = false ∧ ∀ v, d.value = some v → v = .nat n := by
  obtain ⟨p, hp, hreadonly⟩ := hfixed
  obtain ⟨writable, hlength⟩ := hn.length
  obtain rfl := Option.some.inj (hp.symm.trans hlength)
  rcases length_of_definedProperty hmerged hp with hconfigurable | ⟨hflag, hvalue⟩
  · cases hconfigurable
  · refine ⟨?_, fun v hv => ?_⟩
    · by_contra hwritable
      rw [hflag (by simpa using hwritable)] at hreadonly
      cases hreadonly
    · rcases hvalue v hv with hwritable | hsame
      · rw [hwritable] at hreadonly
        cases hreadonly
      · exact Number.eq_of_sameValue hsame

/-- A number that a value asks for as a length is the length. -/
theorem eq_of_arrayLength?_nat (h : Machine.arrayLength? (.nat n) = some k) : k = n := by
  obtain ⟨hk, hequal⟩ := Machine.arrayLength?_eq_some_iff.1 h
  have hread : Number.toNat? (Number.ofNat n) = some k :=
    (Number.toNat?_eq_some_iff (by omega)).2 hequal
  have hn : n < 2 ^ 53 := Number.lt_of_toNat?_ofNat (by omega) hread
  exact Option.some.inj (hread.symm.trans (Number.toNat?_ofNat hn))

theorem Redefined.turned (h : o.Redefined key d o') : o.Turned o' := by
  intro hm
  cases h with
  | length merged v k harray _ hmerged hv hk =>
    obtain ⟨n, hn⟩ := hm harray
    have hresized := hn.resize (Machine.lt_of_arrayLength? hk)
    refine .of_resize hn (hresized.limit merged.writable) (fun hfixed => ?_) fun other hother =>
      get?_limited_of_ne hother _ _
    obtain ⟨hreadonly, hvalue⟩ := fixed_of_definedProperty hn hfixed hmerged
    refine ⟨eq_of_arrayLength?_nat (hvalue v hv ▸ hk), ?_⟩
    rw [hreadonly]
    exact fixedLength_limited hresized
  | flag merged harray _ hmerged _ =>
    obtain ⟨n, hn⟩ := hm harray
    refine .of_resize hn (hn.limit merged.writable) (fun hfixed => ⟨rfl, ?_⟩) fun other hother => ?_
    · rw [(fixed_of_definedProperty hn hfixed hmerged).1]
      exact fixedLength_limited hn
    · rw [get?_limited_of_ne hother, get?_resize, if_neg hother, hn.length_eq,
        if_neg (Nat.lt_irrefl n)]
  | property q hq hplain =>
    have hothers (other : String) (p : Property) (hother : o.isArray = true → other ≠ "length")
        (hp : o.properties.get? other = some p) (hfinal : p.configurable = false) :
        ∃ q', (o.defined key q).properties.get? other = some q' ∧ p.KeptAs q' := by
      rw [get?_defined hother]
      split
      · rename_i hsame
        subst hsame
        exact ⟨q, rfl, .of_definedProperty hq hp hfinal⟩
      · exact ⟨p, hp, .refl hfinal⟩
    have hkey (harray : o.isArray = true) : key ≠ "length" := by
      rintro rfl
      simp [harray] at hplain
    refine .of_reach hm (fun n hn => hn.defined (hkey hn.isArray) q) (fun hfits => ?_) hothers
    rw [defined_of_fits hfits]
    exact ⟨rfl, fun harray => (get?_put ..).trans (if_neg (hkey harray).symm)⟩

/-! ## Changes in a row -/

/-- An array up to some length is changed and has no more than that length. It does not become shorter. -/
def Pushed (k : Nat) (o o' : Object) : Prop :=
  o.Measured → (o.isArray = true → o.length ≤ k) →
    o.Turns o' ∧ (o.isArray = true → o.length ≤ o'.length ∧ o'.length ≤ k)

theorem Pushed.refl (k : Nat) (o : Object) : o.Pushed k o :=
  fun hm hbound => ⟨.refl hm, fun harray => ⟨Nat.le_refl _, hbound harray⟩⟩

theorem Pushed.trans (h : o.Pushed k o₁) (h' : o₁.Pushed k o') : o.Pushed k o' := by
  intro hm hbound
  obtain ⟨hturns, hlength⟩ := h hm hbound
  have harray₁ (harray : o.isArray = true) : o₁.isArray = true := hturns.isArray.trans harray
  obtain ⟨hturns', hlength'⟩ := h' hturns.measured fun h₁ =>
    (hlength (hturns.isArray.symm.trans h₁)).2
  refine ⟨hturns.trans hturns' hm (fun harray => (hlength harray).1) fun harray =>
    .inr (hlength' (harray₁ harray)).1, fun harray => ?_⟩
  exact ⟨(hlength harray).1.trans (hlength' (harray₁ harray)).1, (hlength' (harray₁ harray)).2⟩

/-- An item below the bound is assigned. -/
theorem Assigned.pushed {i : Nat} (h : o.Assigned (Number.natText i) v o') (hi : i < k) :
    o.Pushed k o' := by
  refine fun hm hbound => ⟨h.turned hm, fun harray => ?_⟩
  obtain ⟨n, hn⟩ := hm harray
  have hbound := hbound harray
  rw [hn.length_eq] at hbound ⊢
  rw [(hn.assigned h (natText_ne_length i)).length_eq]
  unfold reach
  split
  · rename_i j hj
    obtain rfl := eq_of_arrayIndex?_natText hj
    omega
  · omega

/-- The bound is assigned as the length. -/
theorem Assigned.pushed_length (h : o.Assigned "length" (.nat k) o') : o.Pushed k o' := by
  refine fun hm hbound => ⟨h.turned hm, fun harray => ?_⟩
  obtain ⟨n, hn⟩ := hm harray
  obtain ⟨j, hj, hextent, -⟩ := hn.assigned_length h
  obtain rfl := eq_of_arrayLength?_nat hj
  rw [hextent.length_eq]
  exact ⟨hbound harray, Nat.le_refl _⟩

/-- What is done to an array after an item of it was deleted. -/
theorem Erased.turned_trans (h : o.Erased key o₁) (h' : o₁.Turned o') : o.Turned o' := by
  intro hm
  have hturns := h.turned hm
  have hlength : o.isArray = true → o₁.length = o.length := by
    intro harray
    obtain ⟨n, hn⟩ := hm harray
    obtain ⟨p, hp, hconfigurable⟩ := h
    exact (hn.erase hp hconfigurable).length_eq.trans hn.length_eq.symm
  exact hturns.trans (h' hturns.measured) hm (fun harray => (hlength harray).ge)
    fun harray => .inl (hlength harray).le

end Object

end ScriptMachine
