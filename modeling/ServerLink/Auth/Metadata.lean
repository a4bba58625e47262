import ServerLink.Protocol.Wire

/-!
# ServerLink.Auth.Metadata

The grammar of the metadata of a handshake command: a concatenation of records, each of
one byte for the length of the name, the name, four bytes for the length of the value,
the value. `verdict` reads a string record by record; it tells the well-formed strings
(`WellFormedMetadata`) and those that end early (`EndsEarly`), right after a name or right
after the length of a value, from the others.
-/

namespace ServerLink

open List

/-! ### Records -/

/-- The first two fields of a record. -/
def nameField (name : List UInt8) : List UInt8 := UInt8.ofNat name.length :: name

/-- The bytes of a record. -/
def encodeRecord (name value : List UInt8) : List UInt8 :=
  nameField name ++ (putUint32 value.length ++ value)

theorem encodeRecord_length (name value : List UInt8) :
    (encodeRecord name value).length = 1 + name.length + 4 + value.length := by
  simp only [encodeRecord, nameField, length_append, length_cons, putUint32_length]
  omega

/-- A record whose lengths fit into their fields. -/
structure Property where
  name : List UInt8
  value : List UInt8
  name_lt : name.length < 256
  value_lt : value.length < 2 ^ 32

def Property.encode (p : Property) : List UInt8 := encodeRecord p.name p.value

/-- A concatenation of records. -/
def WellFormedMetadata (data : List UInt8) : Prop :=
  ∃ ps : List Property, data = ps.flatMap Property.encode

/-- Records, and then the beginning of one that ends right after its name or right after
the length of its value. -/
def EndsEarly (data : List UInt8) : Prop :=
  ∃ (ps : List Property) (name : List UInt8), name.length < 256 ∧
    ((name ≠ [] ∧ data = ps.flatMap Property.encode ++ nameField name) ∨ ∃ n, 0 < n ∧ n < 2 ^ 32 ∧
        data = ps.flatMap Property.encode ++ (nameField name ++ putUint32 n))

/-- What a string of bytes turns out to be when it is read record by record. -/
inductive Verdict
  | complete
  | early
  | malformed
  deriving Repr, DecidableEq

/-- Read a string of at most `fuel` bytes. -/
def verdict : Nat → List UInt8 → Verdict
  | _, [] => .complete
  | 0, _ :: _ => .malformed
  | fuel + 1, b :: rest =>
    if rest.isEmpty then .malformed
    else if rest.length < b.toNat then .malformed
    else
      let tail := rest.drop b.toNat
      if tail.length < 4 then if tail.isEmpty then .early else .malformed
      else
        let n := getUint32 (tail.take 4)
        if tail.length - 4 < n then if (tail.drop 4).isEmpty then .early else .malformed
        else verdict fuel ((tail.drop 4).drop n)

theorem nameLength {name : List UInt8} (h : name.length < 256) :
    (UInt8.ofNat name.length).toNat = name.length := by
  rw [UInt8.toNat_ofNat', Nat.mod_eq_of_lt h]

/-- A record is stepped over. -/
theorem verdict_record (p : Property) (rest : List UInt8) (fuel : Nat) :
    verdict (fuel + 1) (p.encode ++ rest) = verdict fuel rest := by
  have hn := nameLength p.name_lt
  have hlen : (p.name ++ (putUint32 p.value.length ++ p.value) ++ rest).length =
      p.name.length + 4 + p.value.length + rest.length := by simp; omega
  have hdrop : (p.name ++ (putUint32 p.value.length ++ p.value) ++ rest).drop p.name.length =
      putUint32 p.value.length ++ (p.value ++ rest) := by
    simp
  simp only [Property.encode, encodeRecord, nameField, List.cons_append, verdict, hn]
  rw [if_neg (by rw [List.isEmpty_iff, ← List.length_eq_zero_iff]; omega), if_neg (by omega), hdrop]
  rw [if_neg (by simp), List.take_left' (putUint32_length _), List.drop_left' (putUint32_length _),
    getUint32_putUint32 p.value_lt, if_neg (by simp), List.drop_left' rfl]

theorem verdict_records (ps : List Property) (rest : List UInt8) (fuel : Nat) :
    verdict (fuel + ps.length) (ps.flatMap Property.encode ++ rest) = verdict fuel rest := by
  induction ps with
  | nil => rfl
  | cons p ps ih =>
    rw [flatMap_cons, append_assoc, length_cons, ← Nat.add_assoc, verdict_record, ih]

/-- More fuel than bytes changes nothing. -/
theorem verdict_fuel :
    ∀ {fuel : Nat} (fuel' : Nat) {data : List UInt8}, data.length ≤ fuel → data.length ≤ fuel' →
      verdict fuel data = verdict fuel' data := by
  intro fuel
  induction fuel with
  | zero =>
    intro fuel' data h _
    obtain rfl : data = [] := length_eq_zero_iff.mp (by omega)
    cases fuel' <;> rfl
  | succ fuel ih =>
    intro fuel' data h h'
    cases data with
    | nil => cases fuel' <;> rfl
    | cons b rest =>
      cases fuel' with
      | zero => simp at h'
      | succ fuel' =>
        rw [length_cons] at h h'
        have hrest : ∀ i j k, (((rest.drop i).drop j).drop k).length ≤ rest.length :=
          fun i j k => by simp only [length_drop]; omega
        simp only [verdict]
        rw [ih fuel' (Nat.le_trans (hrest _ _ _) (by omega))
          (Nat.le_trans (hrest _ _ _) (by omega))]

theorem verdict_of_wellFormed {data : List UInt8} {fuel : Nat} (h : data.length ≤ fuel)
    (hw : WellFormedMetadata data) : verdict fuel data = .complete := by
  obtain ⟨ps, rfl⟩ := hw
  have hps := verdict_records ps [] (ps.flatMap Property.encode).length
  rw [append_nil] at hps
  rw [verdict_fuel _ h (Nat.le_add_right _ ps.length), hps]
  cases (ps.flatMap Property.encode).length <;> rfl

theorem verdict_of_endsEarly {data : List UInt8} {fuel : Nat} (h : data.length ≤ fuel)
    (he : EndsEarly data) : verdict fuel data = .early := by
  obtain ⟨ps, name, hname, ⟨hne, rfl⟩ | ⟨n, hpos, hlt, rfl⟩⟩ := he
  · rw [verdict_fuel _ h (Nat.le_add_right _ (1 + ps.length)), ← Nat.add_assoc, verdict_records]
    simp only [nameField, verdict, nameLength hname]
    rw [if_neg (by simpa using hne), if_neg (Nat.lt_irrefl _)]
    simp
  rw [verdict_fuel _ h (Nat.le_add_right _ (1 + ps.length)), ← Nat.add_assoc, verdict_records]
  have htail : (name ++ putUint32 n).drop name.length = putUint32 n := by simp
  simp only [nameField, cons_append, verdict, nameLength hname, htail, putUint32_length]
  rw [if_neg (by simp [putUint32]), if_neg (by simp), if_neg (by omega),
    take_of_length_le (by simp), getUint32_putUint32 hlt, if_pos (by omega),
    if_pos (by simp [putUint32])]

/-- A string that reads as complete or early is so. -/
theorem of_verdict :
    ∀ (fuel : Nat) (data : List UInt8), (verdict fuel data = .complete → WellFormedMetadata data) ∧
        (verdict fuel data = .early → EndsEarly data) := by
  intro fuel
  induction fuel with
  | zero =>
    intro data
    cases data with
    | nil => exact ⟨fun _ => ⟨[], rfl⟩, nofun⟩
    | cons b rest => simp [verdict]
  | succ fuel ih =>
    intro data
    cases data with
    | nil => exact ⟨fun _ => ⟨[], rfl⟩, nofun⟩
    | cons b rest =>
      simp only [verdict]
      by_cases h1 : rest = []
      · simp [h1]
      rw [if_neg (by simpa using h1)]
      by_cases h2 : rest.length < b.toNat
      · simp [h2]
      rw [if_neg h2]
      have hb := b.toNat_lt
      have hname : (rest.take b.toNat).length = b.toNat := by
        rw [length_take]
        omega
      have hfield : nameField (rest.take b.toNat) = b :: rest.take b.toNat := by
        rw [nameField, hname]
        simp
      have hsplit : rest = rest.take b.toNat ++ rest.drop b.toNat :=
        (take_append_drop _ _).symm
      generalize rest.take b.toNat = name at hname hfield hsplit
      generalize rest.drop b.toNat = tail at hsplit
      have hcons : b :: rest = nameField name ++ tail := by
        rw [hfield, hsplit]
        rfl
      by_cases h3 : tail.length < 4
      · rw [if_pos h3]
        by_cases h4 : tail = []
        · subst h4
          refine ⟨by simp, fun _ => ⟨[], name, by omega, Or.inl ⟨?_, by simpa using hcons⟩⟩⟩
          rintro rfl
          exact h1 (by simpa using hsplit)
        · simp [h4]
      rw [if_neg h3]
      have hlen : (tail.take 4).length = 4 := by
        rw [length_take]
        omega
      obtain ⟨hlt, hput⟩ := exists_putUint32 hlen
      have hsplit' : tail = putUint32 (getUint32 (tail.take 4)) ++ tail.drop 4 := by
        rw [hput, take_append_drop]
      have hdrop : (tail.drop 4).length = tail.length - 4 := length_drop
      generalize getUint32 (tail.take 4) = n at hlt hsplit'
      generalize tail.drop 4 = value at hsplit' hdrop
      rw [← hdrop]
      by_cases h4 : value.length < n
      · rw [if_pos h4]
        by_cases h5 : value = []
        · subst h5
          refine ⟨by simp, fun _ => ⟨[], name, by omega, Or.inr ⟨n, by simpa using h4, hlt, ?_⟩⟩⟩
          rw [hcons, hsplit', append_nil]
          rfl
        · simp [h5]
      rw [if_neg h4]
      -- A whole record, and the rest.
      have hvalue : (value.take n).length = n := by
        rw [length_take]
        omega
      have hrec : b :: rest =
          Property.encode ⟨name, value.take n, by omega, by omega⟩ ++ value.drop n := by
        have henc : encodeRecord name (value.take n) =
            nameField name ++ (putUint32 n ++ value.take n) := by rw [encodeRecord, hvalue]
        have hwhole : b :: rest = encodeRecord name (value.take n) ++ value.drop n := by
          rw [henc, hcons, hsplit', append_assoc, append_assoc, take_append_drop]
        exact hwhole
      obtain ⟨hc, he⟩ := ih (value.drop n)
      refine ⟨fun h => ?_, fun h => ?_⟩
      · obtain ⟨ps, hps⟩ := hc h
        exact ⟨_ :: ps, by rw [hrec, hps, flatMap_cons]⟩
      obtain ⟨ps, name', hn', hend⟩ := he h
      refine ⟨⟨name, value.take n, by omega, by omega⟩ :: ps, name', hn', ?_⟩
      rw [hrec, flatMap_cons]
      rcases hend with ⟨hne, hd⟩ | ⟨k, hk, hk', hd⟩
      · exact Or.inl ⟨hne, by rw [hd, append_assoc]⟩
      · exact Or.inr ⟨k, hk, hk', by rw [hd, append_assoc]⟩

end ServerLink
