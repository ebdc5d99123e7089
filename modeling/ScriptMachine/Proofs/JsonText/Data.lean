import ScriptMachine.Proofs.JsonText.Layout
import ScriptMachine.Proofs.JsonText.Nesting

/-!
# Data and the JSON that describes it

Plain data is made of null, truth values, texts, integers, dense arrays and objects. JSON describes
it, whatever objects hold it: two values that are described by one JSON are the same data. Data is
written as the JSON that describes it.
-/

namespace ScriptMachine

/-! ## Integers -/

namespace Number

open Float.Model

/-- An integer of at most 53 digits as a double. -/
theorem unpack_ofInt {i : Int} (hi : i ≠ 0) (hbound : i.natAbs < 2 ^ 53) :
    ∃ s hm, (s = .negative ↔ i < 0) ∧ (ofInt i).toModel.unpack = .finite s
      (i.natAbs * 2 ^ (52 - i.natAbs.log2)) (-((52 - i.natAbs.log2 : Nat) : Int)) hm := by
  cases i with
  | ofNat n =>
    have hn : n < 2 ^ 53 := hbound
    have hpos : 0 < n := Nat.pos_of_ne_zero fun h => hi (by rw [h]; rfl)
    obtain ⟨hm, hunpack⟩ := unpack_ofNat hpos hn
    have hsign : UnpackedFloat.Sign.positive = .negative ↔ Int.ofNat n < 0 :=
      iff_of_false UnpackedFloat.Sign.noConfusion (Int.not_lt.2 (Int.natCast_nonneg n))
    exact ⟨.positive, hm, hsign, by rw [ofInt, ofNat_eq hn]; exact hunpack⟩
  | negSucc n =>
    have hn : n + 1 < 2 ^ 53 := hbound
    obtain ⟨hm, hunpack⟩ := unpack_ofNat (Nat.succ_pos n) hn
    have hsign : UnpackedFloat.Sign.negative = .negative ↔ Int.negSucc n < 0 :=
      iff_of_true rfl (Int.negSucc_lt_zero n)
    refine ⟨.negative, hm, hsign, ?_⟩
    rw [ofInt, ofNat_eq hn]
    change (pack (Float.ofNat (n + 1)).toModel.unpack.neg).unpack = _
    rw [hunpack]
    exact unpack_pack (normal_ofNat (Nat.succ_pos n) hn) .negative hm

/-- The double of a number is not below that of a lesser one. -/
theorem not_ofNat_le_ofNat {m n : Nat} (h : m < n) (hn : n < 2 ^ 53) : ¬ ofNat n ≤ ofNat m := by
  intro hle
  have hle : (ofNat n).toModel.unpack.le (ofNat m).toModel.unpack = true := of_decide_eq_true hle
  have hpos : 0 < n := Nat.zero_lt_of_lt h
  obtain ⟨hmantissa, hunpack⟩ := unpack_ofNat hpos hn
  rw [ofNat_eq hn, hunpack] at hle
  rcases Nat.eq_zero_or_pos m with rfl | hpos'
  · rw [unpack_ofNat_zero] at hle
    cases hle
  obtain ⟨hmantissa', hunpack'⟩ := unpack_ofNat hpos' (Nat.lt_trans h hn)
  rw [ofNat_eq (Nat.lt_trans h hn), hunpack'] at hle
  change ((compare (-((52 - n.log2 : Nat) : Int)) (-((52 - m.log2 : Nat) : Int))).then
    (compare (n * 2 ^ (52 - n.log2)) (m * 2 ^ (52 - m.log2)))).isLE = true at hle
  have hdigits : m.log2 ≤ n.log2 :=
    (Nat.le_log2 (Nat.ne_of_gt hpos)).2
      (Nat.le_trans (Nat.log2_self_le (Nat.ne_of_gt hpos')) (Nat.le_of_lt h))
  have hlog : n.log2 ≤ 52 := Nat.lt_succ_iff.1 ((Nat.log2_lt (Nat.ne_of_gt hpos)).2 hn)
  rcases Nat.lt_or_eq_of_le hdigits with hfewer | hsame
  · rw [compare_gt_iff_gt.2 (by omega)] at hle
    cases hle
  · have hmore : m * 2 ^ (52 - m.log2) < n * 2 ^ (52 - n.log2) := by
      rw [hsame]
      exact Nat.mul_lt_mul_of_pos_right h (Nat.two_pow_pos _)
    rw [compare_eq_iff_eq.2 (by omega), compare_gt_iff_gt.2 hmore] at hle
    cases hle

end Number

namespace Builtin.JsonText

open Number

theorem numberJson_of_isIntegral {x : Float} (hintegral : isIntegral x = true)
    (hsmall : Float.abs x < 9007199254740992) : numberJson x = .int (truncInt x) := by
  have hfinite := hintegral
  rw [isIntegral, Bool.and_eq_true] at hfinite
  simp [numberJson, hintegral, hfinite.1, hsmall]

/-- An integer of at most 53 digits is written as itself. -/
theorem numberJson_ofInt {i : Int} (hbound : i.natAbs < 2 ^ 53) :
    numberJson (ofInt i) = .int i := by
  by_cases hi : i = 0
  · subst hi
    have hinteger : truncInt (ofInt 0) = 0 := by decide +kernel
    rw [numberJson_of_isIntegral (by decide +kernel) (by decide +kernel), hinteger]
  obtain ⟨s, hm, hsign, hunpack⟩ := unpack_ofInt hi hbound
  have hpos : 0 < i.natAbs := Int.natAbs_pos.2 hi
  have hnormal := normal_ofNat hpos hbound
  obtain ⟨hs, hmagnitude⟩ := parts_of_unpack_finite hunpack
  have hsame : magnitude (ofInt i) = magnitude (ofNat i.natAbs) :=
    hmagnitude.trans (magnitude_ofNat hpos hbound).symm
  have hintegral : isIntegral (ofInt i) = true := by
    have hfinite : (ofInt i).isFinite = true := by
      change (ofInt i).toModel.unpack.isFinite = true
      rw [hunpack]
      rfl
    have hnat := isIntegral_ofNat hbound
    rw [isIntegral, Bool.and_eq_true] at hnat
    rw [isIntegral, hfinite, hsame, hnat.2]
    rfl
  have hsmall : Float.abs (ofInt i) < 9007199254740992 := by
    have habs : (Float.abs (ofInt i)).toModel.unpack = .finite .positive
        (i.natAbs * 2 ^ (52 - i.natAbs.log2)) (-((52 - i.natAbs.log2 : Nat) : Int)) hm := by
      change (Float.Model.pack (ofInt i).toModel.unpack.abs).unpack = _
      rw [hunpack]
      exact unpack_pack hnormal .positive hm
    have hlimit : (9007199254740992 : Float).toModel.unpack =
        .finite .positive (2 ^ 52) 1 (by decide) := by rfl
    have hlt : (Float.abs (ofInt i)).toModel.unpack.lt
        (9007199254740992 : Float).toModel.unpack = true := by
      rw [habs, hlimit]
      -- The exponents decide: the digits are moved up as far as they go.
      change (some ((compare _ _).then (compare _ _)) == some .lt) = true
      rw [compare_lt_iff_lt.2 (by omega)]
      rfl
    exact decide_eq_true hlt
  have hinteger : truncInt (ofInt i) = i := by
    rw [truncInt, hsame, floor_ofNat hbound]
    cases hneg : isNegative (ofInt i) with
    | true =>
      have hnegative := hsign.1 (by rw [← hs, sign, hneg]; rfl)
      rw [if_pos rfl]
      omega
    | false =>
      have hpositive : ¬ i < 0 := by
        intro hlt
        have h := hsign.2 hlt
        rw [← hs, sign, hneg] at h
        cases h
      rw [if_neg (by decide)]
      omega
  rw [numberJson_of_isIntegral hintegral hsmall, hinteger]

/-- The count of a length is that length. -/
theorem elementCount_ofNat {n : Nat} (hn : n < 2 ^ 32) : elementCount (ofNat n) = n := by
  rcases Nat.eq_zero_or_pos n with rfl | hpos
  · decide +kernel
  have hwide : n < 2 ^ 53 := by omega
  have hintegral := isIntegral_ofNat hwide
  rw [isIntegral, Bool.and_eq_true] at hintegral
  have hzero : ofNat n > 0 := by
    obtain ⟨hm, hunpack⟩ := unpack_ofNat hpos hwide
    have hlt : (0 : Float).toModel.unpack.lt (ofNat n).toModel.unpack = true := by
      rw [ofNat_eq hwide, hunpack]
      rfl
    exact decide_eq_true hlt
  have hcount : elementCount (ofNat n) = clampNat (ofNat n) 4294967295 := by
    simp [elementCount, hintegral.1, hzero]
  rw [hcount, clampNat, if_neg (by simpa using hzero)]
  by_cases hlast : n = 4294967295
  · rw [if_pos (ofNat_le_ofNat (Nat.le_of_eq hlast.symm) hwide), hlast]
  · have hlt : n < 4294967295 := by omega
    rw [if_neg (not_ofNat_le_ofNat hlt (by decide)), floor_ofNat hwide]

end Builtin.JsonText

/-! ## Plain data -/

namespace Object

variable {o : Object} {n : Nat} {keys : List String}

/-- The names of enumerable properties in the order of their enumeration. -/
def shown (o : Object) : List String :=
  Machine.enumerationOrder ((o.properties.entries.toList.filter (·.2.enumerable)).map (·.1))

/-- A dense array: its indices are the only names that it shows. -/
structure Dense (o : Object) (n : Nat) : Prop where
  plain : o.isCallable = false
  isArray : o.isArray = true
  length : o.ownValue "length" = .nat n
  bounded : n < 2 ^ 32
  shown : o.shown = (List.range n).map Number.natText

/-- An object that is neither a function nor an array, and the names that it shows. -/
structure Shows (o : Object) (keys : List String) : Prop where
  plain : o.isCallable = false
  isArray : o.isArray = false
  shown : o.shown = keys

theorem nodup_shown (o : Object) : o.shown.Nodup := by
  apply Machine.nodup_enumerationOrder
  have hkeys : (o.properties.entries.toList.map (·.1)).Nodup := by
    simpa [Table.keys] using o.properties.nodup_keys
  exact hkeys.sublist (List.filter_sublist.map _)

/-- What an object has a value for is a property of its own. -/
theorem exists_property {key : String} (h : o.ownValue key ≠ .undefined) :
    ∃ p, o.properties.get? key = some p ∧ p.value = o.ownValue key := by
  unfold ownValue at h ⊢
  cases hp : o.properties.get? key with
  | none =>
    rw [hp] at h
    exact absurd rfl h
  | some p => exact ⟨p, rfl, rfl⟩

end Object

namespace Builtin.JsonText


mutual

/-- A value is the data that JSON describes. Objects are found by `find`: an array has the items in
their order and shows nothing else, another object has the values of the fields and shows their
names in the same order. Numbers are integers of at most 53 digits. -/
def Depicts (find : ObjectId → Option Object) (v : Value) : Json → Prop
  | .null => v = .null
  | .bool b => v = .bool b
  | .int i => i.natAbs < 2 ^ 53 ∧ v = .number (Number.ofInt i)
  | .float _ => False
  | .str s => v = .string s
  | .arr items => ∃ id o, v = .object id ∧ find id = some o ∧ o.Dense items.length ∧
      DepictsItems find o 0 items
  | .obj fields => ∃ id o, v = .object id ∧ find id = some o ∧ o.Shows (fields.map Prod.fst) ∧
      DepictsFields find o fields

/-- The items from an index on. -/
def DepictsItems (find : ObjectId → Option Object) (o : Object) (i : Nat) : List Json → Prop
  | [] => True
  | j :: rest => Depicts find (o.ownValue (Number.natText i)) j ∧ DepictsItems find o (i + 1) rest

def DepictsFields (find : ObjectId → Option Object) (o : Object) : List (String × Json) → Prop
  | [] => True
  | (key, j) :: rest => Depicts find (o.ownValue key) j ∧ DepictsFields find o rest

end

section

variable {find find' : ObjectId → Option Object}

theorem Depicts.ne_undefined {v : Value} {j : Json} (h : Depicts find v j) : v ≠ .undefined := by
  rintro rfl
  cases j with
  | null => cases h
  | bool b => cases h
  | int i => cases h.2
  | float f => exact h
  | str s => cases h
  | arr items =>
    obtain ⟨id, o, hv, -⟩ := h
    cases hv
  | obj fields =>
    obtain ⟨id, o, hv, -⟩ := h
    cases hv

mutual

/-- Data stays what it is where the same objects are found. -/
theorem Depicts.mono {v : Value} {j : Json} (hfind : ∀ id o, find id = some o → find' id = some o)
    (h : Depicts find v j) : Depicts find' v j := by
  match j, h with
  | .null, h => exact h
  | .bool b, h => exact h
  | .int i, h => exact h
  | .str s, h => exact h
  | .arr items, ⟨id, o, hv, ho, hdense, hitems⟩ =>
    exact ⟨id, o, hv, hfind id o ho, hdense, DepictsItems.mono hfind hitems⟩
  | .obj fields, ⟨id, o, hv, ho, hshows, hfields⟩ =>
    exact ⟨id, o, hv, hfind id o ho, hshows, DepictsFields.mono hfind hfields⟩

theorem DepictsItems.mono {o : Object} {i : Nat} {items : List Json}
    (hfind : ∀ id o, find id = some o → find' id = some o) (h : DepictsItems find o i items) :
    DepictsItems find' o i items := by
  match items, h with
  | [], h => exact h
  | j :: rest, ⟨hj, hrest⟩ => exact ⟨Depicts.mono hfind hj, DepictsItems.mono hfind hrest⟩

theorem DepictsFields.mono {o : Object} {fields : List (String × Json)}
    (hfind : ∀ id o, find id = some o → find' id = some o) (h : DepictsFields find o fields) :
    DepictsFields find' o fields := by
  match fields, h with
  | [], h => exact h
  | (key, j) :: rest, ⟨hj, hrest⟩ => exact ⟨Depicts.mono hfind hj, DepictsFields.mono hfind hrest⟩

end

theorem ofInt_injective {i k : Int} (hi : i.natAbs < 2 ^ 53) (hk : k.natAbs < 2 ^ 53)
    (h : Number.ofInt i = Number.ofInt k) : i = k := by
  have hjson := numberJson_ofInt hi
  rw [h, numberJson_ofInt hk] at hjson
  injection hjson with heq
  exact heq.symm

mutual

/-- A value is the data of one JSON only. -/
theorem Depicts.unique {v : Value} {j k : Json} (h : Depicts find v j) (h' : Depicts find v k) :
    j = k := by
  match j, h with
  | .null, h => cases k <;> simp_all [Depicts]
  | .bool b, h => cases k <;> simp_all [Depicts]
  | .str s, h => cases k <;> simp_all [Depicts]
  | .int i, ⟨hi, hv⟩ =>
    cases k with
    | int k =>
      obtain ⟨hk, hv'⟩ := h'
      rw [hv] at hv'
      injection hv' with hv'
      rw [ofInt_injective hi hk hv']
    | _ => simp_all [Depicts]
  | .arr items, ⟨id, o, hv, ho, hdense, hitems⟩ =>
    subst hv
    cases k with
    | arr others =>
      obtain ⟨id', o', hv', ho', hdense', hitems'⟩ := h'
      cases hv'
      obtain rfl := Option.some.inj (ho.symm.trans ho')
      have hlength : items.length = others.length := by
        have hshown := congrArg List.length (hdense.shown.symm.trans hdense'.shown)
        simpa using hshown
      rw [DepictsItems.unique hlength hitems hitems']
    | obj fields =>
      obtain ⟨id', o', hv', ho', hshows', -⟩ := h'
      cases hv'
      obtain rfl := Option.some.inj (ho.symm.trans ho')
      cases hdense.isArray.symm.trans hshows'.isArray
    | _ => simp_all [Depicts]
  | .obj fields, ⟨id, o, hv, ho, hshows, hfields⟩ =>
    subst hv
    cases k with
    | obj others =>
      obtain ⟨id', o', hv', ho', hshows', hfields'⟩ := h'
      cases hv'
      obtain rfl := Option.some.inj (ho.symm.trans ho')
      rw [DepictsFields.unique (hshows.shown.symm.trans hshows'.shown) hfields hfields']
    | arr items =>
      obtain ⟨id', o', hv', ho', hdense', -⟩ := h'
      cases hv'
      obtain rfl := Option.some.inj (ho.symm.trans ho')
      cases hshows.isArray.symm.trans hdense'.isArray
    | _ => simp_all [Depicts]

theorem DepictsItems.unique {o : Object} {i : Nat} {items others : List Json}
    (hlength : items.length = others.length) (h : DepictsItems find o i items)
    (h' : DepictsItems find o i others) : items = others := by
  match items, others, h, h' with
  | [], [], _, _ => rfl
  | j :: rest, k :: more, ⟨hj, hrest⟩, ⟨hk, hmore⟩ =>
    rw [Depicts.unique hj hk, DepictsItems.unique (Nat.succ.inj hlength) hrest hmore]

theorem DepictsFields.unique {o : Object} {fields others : List (String × Json)}
    (hnames : fields.map Prod.fst = others.map Prod.fst) (h : DepictsFields find o fields)
    (h' : DepictsFields find o others) : fields = others := by
  match fields, others, h, h' with
  | [], [], _, _ => rfl
  | (key, j) :: rest, (name, k) :: more, ⟨hj, hrest⟩, ⟨hk, hmore⟩ =>
    obtain ⟨hname, hothers⟩ : key = name ∧ rest.map Prod.fst = more.map Prod.fst := by
      simpa using hnames
    subst hname
    rw [Depicts.unique hj hk, DepictsFields.unique hothers hrest hmore]

end

end

/-! ## Writing data -/

open Machine

section

variable {m : Machine} {actor : Option Owner}

/-- The objects that an owner may read and list. -/
def shownTo (m : Machine) (actor : Option Owner) (id : ObjectId) : Option Object := do
  let _ ← (m.authorize actor id .read).toOption
  (m.authorize actor id .enumerate).toOption

/-- Both built-in policies let every owner read and list every object. -/
theorem shownTo_of_policy (h : m.policy = .everyone ∨ m.policy = .ownerOnly) (actor : Owner) :
    shownTo m (some actor) = m.heap.object? := by
  have hallowed (owner : Option Owner) (access : Access) (haccess : access.isMutation = false) :
      m.authorizeOwner (some actor) owner access = .ok () := by
    rcases h with h | h <;> simp [authorizeOwner, h, Policy.everyone, Policy.ownerOnly, haccess]
  ext id o
  rw [shownTo]
  cases ho : m.heap.object? id with
  | none => simp [authorize, Heap.object, ho, bind, Except.bind, Except.toOption]
  | some p =>
    have hread : m.authorize (some actor) id .read = .ok p :=
      authorize_eq_ok_iff.2 ⟨ho, hallowed p.owner .read rfl⟩
    have hlist : m.authorize (some actor) id .enumerate = .ok p :=
      authorize_eq_ok_iff.2 ⟨ho, hallowed p.owner .enumerate rfl⟩
    rw [hread, hlist]
    rfl

variable {id : ObjectId} {o : Object} {depth : Nat} {visiting : List ObjectId}

theorem authorize_of_shownTo (h : shownTo m actor id = some o) :
    m.authorize actor id .read = .ok o ∧ m.authorize actor id .enumerate = .ok o := by
  rw [shownTo] at h
  cases hread : m.authorize actor id .read with
  | error e =>
    rw [hread] at h
    cases h
  | ok p =>
    cases hlist : m.authorize actor id .enumerate with
    | error e =>
      rw [hread, hlist] at h
      cases h
    | ok q =>
      rw [hread, hlist] at h
      obtain rfl := Option.some.inj h
      have hp := (authorize_eq_ok_iff.1 hread).1
      obtain rfl := Option.some.inj (hp.symm.trans (authorize_eq_ok_iff.1 hlist).1)
      exact ⟨rfl, rfl⟩

theorem object?_of_shownTo (h : shownTo m actor id = some o) : m.heap.object? id = some o :=
  (authorize_eq_ok_iff.1 (authorize_of_shownTo h).1).1

theorem getProperty_ownValue (ho : shownTo m actor id = some o) {key : String}
    (hvalue : o.ownValue key ≠ .undefined) :
    m.getProperty (.object id) key actor = .ok (o.ownValue key) := by
  obtain ⟨p, hp, hown⟩ := Object.exists_property hvalue
  rw [getProperty_of_own (authorize_of_shownTo ho).1 hp, hown]

theorem ownKeys_eq_shown (ho : shownTo m actor id = some o) :
    m.ownKeys id actor false = .ok o.shown := by
  rw [ownKeys, (authorize_of_shownTo ho).2]
  rfl

theorem isCallable_of_object? (ho : m.heap.object? id = some o) :
    m.isCallable (.object id) = o.isCallable := by
  rw [isCallable, ho]
  rfl

variable {find : ObjectId → Option Object}

/-- None of some objects is data that is nested to so small a depth. -/
def Deeper (find : ObjectId → Option Object) (depth : Nat) (ids : List ObjectId) : Prop :=
  ∀ id ∈ ids, ∀ k, Depicts find (.object id) k → depth < k.depth

theorem Deeper.mono {ids : List ObjectId} {shallow : Nat} (h : Deeper find depth ids)
    (hle : shallow ≤ depth) : Deeper find shallow ids :=
  fun id hid k hk => Nat.lt_of_le_of_lt hle (h id hid k hk)

theorem Deeper.not_mem {j : Json} (h : Deeper find j.depth visiting)
    (hj : Depicts find (.object id) j) : id ∉ visiting :=
  fun hid => Nat.lt_irrefl _ (h id hid j hj)

/-- In front of its members data is deeper than they are. -/
theorem Deeper.cons {j : Json} {inner : Nat} (h : Deeper find j.depth visiting)
    (hj : Depicts find (.object id) j) (hinner : inner < j.depth) :
    Deeper find inner (id :: visiting) := by
  intro other hother k hk
  rcases List.mem_cons.1 hother with rfl | hother
  · rwa [hk.unique hj]
  · exact Nat.lt_trans hinner (h other hother k hk)

theorem exists_rest {n : Nat} (h : n + 1 ≤ depth) : ∃ rest, depth = rest + 1 :=
  ⟨depth - 1, (Nat.sub_add_cancel (Nat.le_trans (Nat.succ_pos n) h)).symm⟩

mutual

/-- Data is written as the JSON that describes it. -/
theorem toJson_of_depicts {v : Value} {j : Json} (h : Depicts (shownTo m actor) v j)
    {depth : Nat} {visiting : List ObjectId} (hdepth : j.depth ≤ depth)
    (hvisiting : Deeper (shownTo m actor) j.depth visiting) :
    toJson m actor depth visiting v = .ok (some j) := by
  match j, h with
  | .null, h =>
    rw [h, toJson]
  | .bool b, h =>
    rw [h, toJson]
  | .str s, h =>
    rw [h, toJson]
  | .int i, ⟨hi, hv⟩ =>
    rw [hv, toJson, numberJson_ofInt hi]
  | .arr items, h =>
    obtain ⟨id, o, hv, ho, hdense, hitems⟩ := id h
    subst hv
    obtain ⟨rest, rfl⟩ := exists_rest hdepth
    have hlength : m.getProperty (.object id) "length" actor =
        .ok (.nat items.length) := by
      rw [getProperty_ownValue ho (by rw [hdense.length]; exact Value.noConfusion),
        hdense.length]
    have hcount : elementCount (Value.nat items.length).toNumber = items.length :=
      elementCount_ofNat hdense.bounded
    have hwritten := toJson_items ho hitems (Nat.le_of_succ_le_succ hdepth)
      (hvisiting.cons h (Nat.lt_succ_self _))
    rw [toJson_object ((isCallable_of_object? (object?_of_shownTo ho)).trans hdense.plain) (hvisiting.not_mem h)]
    rw [Heap.object_eq_ok_iff.2 (object?_of_shownTo ho)]
    dsimp only [bind, Except.bind] at hwritten ⊢
    rw [if_pos hdense.isArray, hlength]
    dsimp only
    rw [hcount, List.range_eq_range', hwritten]
    simp [pure, Except.pure]
  | .obj fields, h =>
    obtain ⟨id, o, hv, ho, hshows, hfields⟩ := id h
    subst hv
    obtain ⟨rest, rfl⟩ := exists_rest hdepth
    have hkeys := ownKeys_eq_shown ho
    have hwritten := toJson_fields ho hfields (Nat.le_of_succ_le_succ hdepth)
      (hvisiting.cons h (Nat.lt_succ_self _))
    rw [toJson_object ((isCallable_of_object? (object?_of_shownTo ho)).trans hshows.plain) (hvisiting.not_mem h)]
    rw [Heap.object_eq_ok_iff.2 (object?_of_shownTo ho)]
    dsimp only [bind, Except.bind] at hwritten ⊢
    rw [if_neg (Bool.eq_false_iff.1 hshows.isArray), hkeys, hshows.shown]
    dsimp only
    rw [hwritten]
    simp [pure, Except.pure, List.filterMap_map]

theorem toJson_items {id : ObjectId} {o : Object} (ho : shownTo m actor id = some o) {i : Nat}
    {items : List Json} (h : DepictsItems (shownTo m actor) o i items) {depth : Nat} {visiting : List ObjectId}
    (hdepth : Json.itemsDepth items ≤ depth)
    (hvisiting : Deeper (shownTo m actor) (Json.itemsDepth items) visiting) :
    ((List.range' i items.length).mapM fun i => do
      toJson m actor depth visiting
        (← m.getProperty (.object id) (Number.natText i) actor)) =
      .ok (items.map some) := by
  match items, h with
  | [], _ => rfl
  | j :: rest, ⟨hj, hrest⟩ =>
    rw [Json.itemsDepth] at hdepth hvisiting
    have hitem := toJson_of_depicts hj (Nat.le_trans (Nat.le_max_left _ _) hdepth)
      (hvisiting.mono (Nat.le_max_left _ _))
    have hitems := toJson_items ho hrest (Nat.le_trans (Nat.le_max_right _ _) hdepth)
      (hvisiting.mono (Nat.le_max_right _ _))
    rw [List.length_cons, List.range'_succ, List.mapM_cons, hitems,
      getProperty_ownValue ho hj.ne_undefined]
    dsimp only [bind, Except.bind]
    rw [hitem]
    rfl

theorem toJson_fields {id : ObjectId} {o : Object} (ho : shownTo m actor id = some o)
    {fields : List (String × Json)} (h : DepictsFields (shownTo m actor) o fields) {depth : Nat} {visiting : List ObjectId}
    (hdepth : Json.fieldsDepth fields ≤ depth)
    (hvisiting : Deeper (shownTo m actor) (Json.fieldsDepth fields) visiting) :
    (let inner (key : String) : Except Failure (Option Json) := do
        toJson m actor depth visiting (← m.getProperty (.object id) key actor)
      (fields.map Prod.fst).mapM fun key => return (key, ← inner key)) =
      .ok (fields.map fun e => (e.1, some e.2)) := by
  match fields, h with
  | [], _ => rfl
  | (key, j) :: rest, ⟨hj, hrest⟩ =>
    rw [Json.fieldsDepth] at hdepth hvisiting
    have hfield := toJson_of_depicts hj (Nat.le_trans (Nat.le_max_left _ _) hdepth)
      (hvisiting.mono (Nat.le_max_left _ _))
    have hfields := toJson_fields ho hrest (Nat.le_trans (Nat.le_max_right _ _) hdepth)
      (hvisiting.mono (Nat.le_max_right _ _))
    rw [List.map_cons, List.mapM_cons, hfields]
    dsimp only [bind, Except.bind]
    rw [getProperty_ownValue ho hj.ne_undefined]
    dsimp only
    rw [hfield]
    rfl

end

end

end Builtin.JsonText

end ScriptMachine
