import ServerLink.Auth.Metadata
import ServerLink.Auth.NullMechanism

/-!
# ServerLink.Auth.ReadyCommand

The READY command from one side to the other. `make_command_with_basic_properties` fills
its message with the records of the properties, exactly, and a peer that accepts the
socket type reads them back; the identity is among them only if the sender is a ROUTER.

What `parse_metadata` accepts is more than the metadata that are well formed: its loop is
left when a record is cut short, and what decides then is whether any bytes are left, so
that a string that ends early passes.
-/

namespace ServerLink

open Mechanism List

namespace Mechanism

variable {name type : List UInt8} {o : MechanismOptions} {m : Mechanism}

/-! ### Writing -/

/-- The cells of a command whose first bytes are written. -/
def filled (bytes : List UInt8) (k : Nat) : Cells := bytes.map some ++ replicate k none

theorem store_filled (bytes bs : List UInt8) {k : Nat} (h : bs.length ≤ k) :
    store (filled bytes k) bytes.length bs = .ok (filled (bytes ++ bs) (k - bs.length)) := by
  have hlen : (filled bytes k).length = bytes.length + k := by simp [filled]
  rw [store, if_pos (by omega)]
  simp only [filled, map_append, append_assoc]
  rw [take_left' (by simp), drop_append]
  simp [drop_eq_nil_of_le, drop_replicate]

/-- A property goes behind what is written. -/
theorem addProperty_filled (bytes : List UInt8) {k : Nat} {value : List UInt8}
    (hn : name.length ≤ 255) (hv : value.length < 2 ^ 31)
    (h : (encodeRecord name value).length ≤ k) :
    addProperty (filled bytes k) bytes.length k name value =
      .ok (filled (bytes ++ encodeRecord name value) (k - (encodeRecord name value).length),
        (encodeRecord name value).length) := by
  have hlen := encodeRecord_length name value
  have h1 : store (filled bytes k) bytes.length [UInt8.ofNat name.length] =
      .ok (filled (bytes ++ [UInt8.ofNat name.length]) (k - 1)) :=
    store_filled bytes [UInt8.ofNat name.length] (by simp only [length_singleton]; omega)
  have h2 := store_filled (bytes ++ [UInt8.ofNat name.length]) name
    (show name.length ≤ k - 1 by omega)
  have h3 := store_filled (bytes ++ [UInt8.ofNat name.length] ++ name) (putUint32 value.length)
    (show (putUint32 value.length).length ≤ k - 1 - name.length by rw [putUint32_length]; omega)
  have h4 := store_filled
    (bytes ++ [UInt8.ofNat name.length] ++ name ++ putUint32 value.length) value
    (show value.length ≤ k - 1 - name.length - 4 by omega)
  simp only [length_append, length_singleton, putUint32_length] at h2 h3 h4
  simp only [addProperty, nameLen, if_pos hn,
    if_neg (show ¬ k < 1 + name.length + 4 + value.length by omega),
    if_neg (show ¬ 0x7FFFFFFF < value.length by omega), bind, Except.bind, pure, Except.pure,
    h1, h2, h3, h4, hlen]
  congr 3
  · simp [encodeRecord, nameField]
  · omega

/-- The bytes of the properties. -/
def encodeAll (ps : List (List UInt8 × List UInt8)) : List UInt8 :=
  ps.flatMap fun p => encodeRecord p.1 p.2

theorem length_le_encodeAll (ps : List (List UInt8 × List UInt8)) :
    ps.length ≤ (encodeAll ps).length := by
  induction ps with
  | nil => exact Nat.le_refl _
  | cons p ps ih =>
    rw [encodeAll, flatMap_cons, length_append, encodeRecord_length, length_cons]
    rw [encodeAll] at ih
    omega

/-- The properties that can be written: a name of one length byte, a value of less than
2^31 bytes. -/
def Writable (p : List UInt8 × List UInt8) : Prop := p.1.length ≤ 255 ∧ p.2.length < 2 ^ 31

theorem addProperties_filled {ps : List (List UInt8 × List UInt8)} :
    ∀ (bytes : List UInt8) {k : Nat}, (∀ p ∈ ps, Writable p) → (encodeAll ps).length ≤ k →
      addProperties (filled bytes k) bytes.length k ps =
        .ok (filled (bytes ++ encodeAll ps) (k - (encodeAll ps).length)) := by
  induction ps with
  | nil => intro bytes k _ _; simp [addProperties, encodeAll]
  | cons p ps ih =>
    intro bytes k hps hk
    have hcons : encodeAll (p :: ps) = encodeRecord p.1 p.2 ++ encodeAll ps := flatMap_cons
    rw [hcons, length_append] at hk ⊢
    obtain ⟨hn, hv⟩ := hps p (by simp)
    have hrest := ih (bytes ++ encodeRecord p.1 p.2)
      (k := k - (encodeRecord p.1 p.2).length) (fun q hq => hps q (by simp [hq])) (by omega)
    rw [length_append] at hrest
    rw [addProperties, addProperty_filled bytes hn hv (by omega)]
    simp only [bind, Except.bind, hrest, append_assoc, Nat.sub_sub]

/-! ### The options of a socket -/

/-- The options that `SL_ROUTING_ID` and `SL_METADATA` can give a socket, with values that
the wire can carry: names of 2 to 255 bytes that start with `X-`, values of less than
2^31 bytes, neither with a zero byte. -/
def ValidOptions (o : MechanismOptions) : Prop :=
  ∀ p ∈ o.appMetadata, 2 ≤ p.1.length ∧ p.1.length ≤ 255 ∧ p.1.take 2 = [88, 45] ∧
    (0 : UInt8) ∉ p.1 ∧ p.2.length < 2 ^ 31 ∧ (0 : UInt8) ∉ p.2

theorem cStr_of_not_mem {s : List UInt8} (h : (0 : UInt8) ∉ s) : cStr s = s := by
  induction s with
  | nil => rfl
  | cons b s ih =>
    have hb : b ≠ 0 := fun hb => h (by simp [hb])
    rw [cStr, takeWhile_cons_of_pos (by simpa using hb)]
    exact congrArg (b :: ·) (ih fun hs => h (by simp [hs]))

/-- The identity, which only a ROUTER sends. -/
def identity (o : MechanismOptions) : List (List UInt8 × List UInt8) :=
  if o.type = .router then [(propertyIdentity, o.routingId)] else []

/-- The properties that a socket sends: its type, its identity, and the application
metadata. -/
def properties (o : MechanismOptions) (type : List UInt8) : List (List UInt8 × List UInt8) :=
  (propertySocketType, type) :: (identity o ++ o.appMetadata)

theorem map_cStr (h : ValidOptions o) :
    (o.appMetadata.map fun p => (cStr p.1, cStr p.2)) = o.appMetadata := by
  refine (map_congr_left fun p hp => ?_).trans (map_id _)
  obtain ⟨-, -, -, hn, -, hv⟩ := h p hp
  rw [cStr_of_not_mem hn, cStr_of_not_mem hv]
  rfl

theorem basicProperties_eq (h : ValidOptions o)
    (ht : socketTypeString o.type = .ok type) : basicProperties o = .ok (properties o type) := by
  rw [basicProperties, ht, map_cStr h]
  rfl

theorem socketTypeString_length {t : SocketType}
    (h : socketTypeString t = .ok type) : type.length ≤ 6 := by
  cases t <;> cases h <;> decide

theorem writable_properties (h : ValidOptions o)
    (ht : socketTypeString o.type = .ok type) : ∀ p ∈ properties o type, Writable p := by
  have hlen := socketTypeString_length ht
  have hid := o.routingId_le
  intro p hp
  rcases mem_cons.mp hp with rfl | hp
  · exact ⟨by dsimp only; decide, by dsimp only; omega⟩
  rcases mem_append.mp hp with hp | hp
  · unfold identity at hp
    split at hp
    · rw [mem_singleton.mp hp]
      exact ⟨by dsimp only; decide, by dsimp only; omega⟩
    · cases hp
  · obtain ⟨-, hn, -, -, hv, -⟩ := h p hp
    exact ⟨hn, hv⟩

theorem metaLen_eq {ps : List (List UInt8 × List UInt8)}
    (hps : ∀ p ∈ ps, Writable p ∧ cStr p.1 = p.1 ∧ cStr p.2 = p.2) :
    metaLen ps = .ok (encodeAll ps).length := by
  induction ps with
  | nil => rfl
  | cons p ps ih =>
    obtain ⟨⟨hn, -⟩, h1, h2⟩ := hps p (by simp)
    rw [metaLen, h1, h2, propertyLen, nameLen, if_pos hn, ih fun q hq => hps q (by simp [hq])]
    simp [bind, Except.bind, Except.map, pure, Except.pure, encodeAll, encodeRecord_length]

theorem basicPropertiesLen_eq (h : ValidOptions o) (ht : socketTypeString o.type = .ok type) :
    basicPropertiesLen o = .ok (encodeAll (properties o type)).length := by
  have hmeta : metaLen o.appMetadata = .ok (encodeAll o.appMetadata).length :=
    metaLen_eq fun p hp => by
      obtain ⟨-, hn, -, hn', hv, hv'⟩ := h p hp
      exact ⟨⟨hn, hv⟩, cStr_of_not_mem hn', cStr_of_not_mem hv'⟩
  have htype : propertyLen propertySocketType type.length =
      .ok (1 + propertySocketType.length + 4 + type.length) := rfl
  have hid : propertyLen propertyIdentity o.routingId.length =
      .ok (1 + propertyIdentity.length + 4 + o.routingId.length) := rfl
  rw [basicPropertiesLen, ht]
  simp only [bind, Except.bind, hmeta, htype, hid, pure, Except.pure]
  by_cases hr : o.type = .router
  · simp only [if_pos hr, encodeAll, properties, identity, flatMap_cons, flatMap_append,
      flatMap_nil, length_append, encodeRecord_length, length_nil]
    congr 1
    omega
  · simp only [if_neg hr, encodeAll, properties, identity, flatMap_cons, nil_append,
      length_append, encodeRecord_length]
    congr 1

/-- **The READY command fills its message.** No assertion fails, and every byte is set. -/
theorem makeCommand_eq (h : ValidOptions o) (ht : socketTypeString o.type = .ok type)
    (pre : List UInt8) :
    makeCommandWithBasicProperties o pre =
      .ok ((pre ++ encodeAll (properties o type)).map some) := by
  have hstore := store_filled [] pre
    (show pre.length ≤ pre.length + (encodeAll (properties o type)).length by omega)
  have hempty : filled [] (pre.length + (encodeAll (properties o type)).length) =
      replicate (pre.length + (encodeAll (properties o type)).length) none := rfl
  rw [hempty, length_nil, nil_append, Nat.add_sub_cancel_left] at hstore
  rw [makeCommandWithBasicProperties, basicPropertiesLen_eq h ht]
  simp only [bind, Except.bind, hstore, addBasicProperties, basicProperties_eq h ht,
    Nat.add_sub_cancel_left]
  rw [addProperties_filled pre (writable_properties h ht) (Nat.le_refl _), Nat.sub_self]
  simp [filled]

/-! ### Reading -/

/-- Go on, unless the property was refused. -/
def andThen (r : Mechanism × Option Errno) (k : Mechanism → Mechanism × Option Errno) :
    Mechanism × Option Errno :=
  match r with
  | (m, some e) => (m, some e)
  | (m, none) => k m

/-- What `parse_metadata` does with a string, without its bounds checks. -/
def readRecords : Nat → Mechanism → List UInt8 → Mechanism × Option Errno
  | 0, m, data => (m, leftOver data.length)
  | fuel + 1, m, data =>
    if 1 < data.length then
      let n := (data.headD 0).toNat
      if data.length - 1 < n then (m, leftOver (data.length - 1))
      else if data.length - 1 - n < 4 then (m, leftOver (data.length - 1 - n))
      else
        let v := getUint32 ((data.drop (1 + n)).take 4)
        if data.length - 1 - n - 4 < v then (m, leftOver (data.length - 1 - n - 4))
        else
          andThen (m.takeProperty ((data.drop 1).take n) ((data.drop (1 + n + 4)).take v))
            fun m => readRecords fuel m (data.drop (1 + n + 4 + v))
    else (m, leftOver data.length)

theorem load_drop {data : List UInt8} {ptr i n : Nat} (h : ptr + i + n ≤ data.length) :
    load data (ptr + i) n = .ok (((data.drop ptr).drop i).take n) := by
  rw [load, if_pos h, drop_drop]

/-- No round reads outside of the string. -/
theorem parseLoop_eq {data : List UInt8} :
    ∀ {fuel : Nat} (m : Mechanism) {ptr : Nat}, ptr ≤ data.length →
      parseLoop data fuel m ptr (data.length - ptr) = .ok (readRecords fuel m (data.drop ptr)) := by
  intro fuel
  induction fuel with
  | zero => intro m ptr _; simp [parseLoop, readRecords]
  | succ fuel ih =>
    intro m ptr hptr
    have hlen : (data.drop ptr).length = data.length - ptr := length_drop
    simp only [parseLoop, readRecords, hlen]
    by_cases h1 : 1 < data.length - ptr
    case neg => rw [if_neg h1, if_neg h1]
    have hhead : load data ptr 1 = .ok ((data.drop ptr).take 1) := load_drop (i := 0) (by omega)
    have hb : ((data.drop ptr).take 1).headD 0 = (data.drop ptr).headD 0 := by
      cases data.drop ptr <;> rfl
    rw [if_pos h1, if_pos h1]
    simp only [hhead, bind, Except.bind, pure, Except.pure, hb]
    generalize ((data.drop ptr).headD 0).toNat = n
    by_cases h2 : data.length - ptr - 1 < n
    · rw [if_pos h2, if_pos h2]
    rw [if_neg h2, if_neg h2, load_drop (by omega)]
    dsimp only
    by_cases h3 : data.length - ptr - 1 - n < 4
    · rw [if_pos h3, if_pos h3]
    rw [if_neg h3, if_neg h3, Nat.add_assoc ptr 1 n, load_drop (by omega)]
    dsimp only
    generalize getUint32 (((data.drop ptr).drop (1 + n)).take 4) = v
    by_cases h4 : data.length - ptr - 1 - n - 4 < v
    · rw [if_pos h4, if_pos h4]
    rw [if_neg h4, if_neg h4, Nat.add_assoc ptr (1 + n) 4, load_drop (by omega)]
    dsimp only
    rcases m.takeProperty (((data.drop ptr).drop 1).take n)
      (((data.drop ptr).drop (1 + n + 4)).take v) with ⟨m', _ | e⟩
    · have hleft : data.length - ptr - 1 - n - 4 - v = data.length - (ptr + (1 + n + 4) + v) := by
        omega
      dsimp only [andThen]
      rw [hleft, ih m' (by omega), drop_drop, Nat.add_assoc ptr]
    · rfl

theorem parseMetadata_eq (m : Mechanism) (data : List UInt8) :
    m.parseMetadata data = .ok (readRecords data.length m data) :=
  parseLoop_eq m (Nat.zero_le _)

theorem takeProperty_router (h : m.options.type = .router) (name value : List UInt8) :
    (m.takeProperty name value).2 = none ∧
      (m.takeProperty name value).1.options.type = .router := by
  have hcheck : checkSocketType m.options value = true := by simp only [checkSocketType, h]
  have hinsert : ∀ m' : Mechanism, (m'.insertProperty name value).options = m'.options := by
    intro m'
    unfold insertProperty
    split <;> rfl
  unfold takeProperty
  split
  · exact ⟨rfl, by rw [hinsert]; exact h⟩
  · split <;> exact ⟨rfl, by rw [hinsert]; exact h⟩

theorem leftOver_eq_none {n : Nat} : leftOver n = none ↔ n = 0 := by
  unfold leftOver
  split <;> simp <;> omega

/-- Where a record is cut short, the string passes if no bytes are left. -/
theorem cutShort_iff (data : List UInt8) :
    leftOver data.length = none ↔
      (if data.isEmpty = true then Verdict.early else .malformed) ≠ .malformed := by
  rw [leftOver_eq_none, length_eq_zero_iff]
  cases data <;> simp

/-- **What a ROUTER accepts**: the strings that do not read as malformed. -/
theorem readRecords_router :
    ∀ {fuel : Nat} {m : Mechanism} {data : List UInt8}, m.options.type = .router →
      data.length ≤ fuel →
      ((readRecords fuel m data).2 = none ↔ verdict fuel data ≠ .malformed) := by
  intro fuel
  induction fuel with
  | zero =>
    intro m data _ hlen
    obtain rfl : data = [] := length_eq_zero_iff.mp (by omega)
    simp [readRecords, verdict, leftOver]
  | succ fuel ih =>
    intro m data hm hlen
    cases data with
    | nil => simp [readRecords, verdict, leftOver]
    | cons b rest =>
      rw [length_cons] at hlen
      simp only [readRecords, verdict, length_cons, headD_cons, Nat.add_sub_cancel]
      by_cases h1 : rest = []
      · simp [h1, leftOver]
      have hpos : 0 < rest.length := length_pos_iff.mpr h1
      have hempty : rest.isEmpty = false := by simpa using h1
      have hdrop : ∀ i, (b :: rest).drop (1 + i) = rest.drop i := fun i => by
        rw [Nat.add_comm, drop_succ_cons]
      simp only [if_pos (show 1 < rest.length + 1 by omega), hempty, Bool.false_eq_true,
        if_false, Nat.add_assoc 1, hdrop, ← drop_drop]
      generalize b.toNat = n
      by_cases h2 : rest.length < n
      · rw [if_pos h2, if_pos h2]
        simp [leftOver, hpos]
      rw [if_neg h2, if_neg h2]
      have htail : (rest.drop n).length = rest.length - n := length_drop
      rw [← htail]
      by_cases h3 : (rest.drop n).length < 4
      · rw [if_pos h3, if_pos h3]
        exact cutShort_iff _
      rw [if_neg h3, if_neg h3]
      have hvalue : ((rest.drop n).drop 4).length = (rest.drop n).length - 4 := length_drop
      rw [← hvalue]
      generalize getUint32 ((rest.drop n).take 4) = v
      by_cases h4 : ((rest.drop n).drop 4).length < v
      · rw [if_pos h4, if_pos h4]
        exact cutShort_iff _
      rw [if_neg h4, if_neg h4]
      -- A whole record, which is taken.
      obtain ⟨hnone, hrouter⟩ := takeProperty_router hm
        (((b :: rest).drop 1).take n) (((rest.drop n).drop 4).take v)
      generalize m.takeProperty _ _ = r at hnone hrouter
      obtain ⟨m', rc⟩ := r
      cases hnone
      exact ih hrouter (by simp only [length_drop]; omega)

/-! ### The properties of a socket, read by its peer -/

theorem readRecords_record {value : List UInt8} (h : Writable (name, value)) (rest : List UInt8)
    (fuel : Nat) (m : Mechanism) :
    readRecords (fuel + 1) m (encodeRecord name value ++ rest) =
      andThen (m.takeProperty name value) fun m => readRecords fuel m rest := by
  obtain ⟨hname, hvalue⟩ : name.length ≤ 255 ∧ value.length < 2 ^ 31 := h
  have hn := nameLength (show name.length < 256 by omega)
  have hdata : encodeRecord name value ++ rest =
      UInt8.ofNat name.length :: (name ++ (putUint32 value.length ++ (value ++ rest))) := by
    simp [encodeRecord, nameField]
  have hlen : (encodeRecord name value ++ rest).length =
      1 + name.length + 4 + value.length + rest.length := by
    rw [length_append, encodeRecord_length]
  have hhead : ((encodeRecord name value ++ rest).headD 0).toNat = name.length := by
    rw [hdata, headD_cons, hn]
  have hdrop1 : (encodeRecord name value ++ rest).drop 1 =
      name ++ (putUint32 value.length ++ (value ++ rest)) := by
    rw [hdata, drop_succ_cons, drop_zero]
  have hdrop2 : (encodeRecord name value ++ rest).drop (1 + name.length) =
      putUint32 value.length ++ (value ++ rest) := by
    rw [← drop_drop, hdrop1, drop_left' rfl]
  have hdrop3 : (encodeRecord name value ++ rest).drop (1 + name.length + 4) = value ++ rest := by
    rw [← drop_drop, hdrop2, drop_left' (putUint32_length _)]
  have hdrop4 : (encodeRecord name value ++ rest).drop (1 + name.length + 4 + value.length) =
      rest := by
    rw [← drop_drop, hdrop3, drop_left' rfl]
  have hv : getUint32 ((putUint32 value.length ++ (value ++ rest)).take 4) = value.length := by
    rw [take_left' (putUint32_length _), getUint32_putUint32 (by omega)]
  simp only [readRecords, hhead, hdrop1, hdrop2, hv, hdrop3, hdrop4]
  rw [if_pos (by omega), if_neg (by omega), if_neg (by omega), if_neg (by omega),
    take_left' rfl, take_left' rfl]

theorem insertProperty_new (value : List UInt8) (hnew : name ∉ m.zmtpProperties.map Prod.fst) :
    m.insertProperty name value =
      { m with zmtpProperties := m.zmtpProperties ++ [(name, value)] } := by
  have hnone : (m.zmtpProperties.any fun p => p.1 == name) = false := by
    refine any_eq_false.mpr fun p hp heq => hnew ?_
    rw [← beq_iff_eq.mp heq]
    exact mem_map_of_mem hp
  rw [insertProperty, hnone]
  rfl

/-- A property that the application named is kept, and changes nothing else. -/
theorem takeProperty_app (value : List UInt8) (hi : name ≠ propertyIdentity)
    (ht : name ≠ propertySocketType) (hnew : name ∉ m.zmtpProperties.map Prod.fst) :
    m.takeProperty name value =
      ({ m with zmtpProperties := m.zmtpProperties ++ [(name, value)] }, none) := by
  rw [takeProperty, if_neg fun h => hi h.1, if_neg ht, insertProperty_new value hnew]

theorem readRecords_app {ps : List (List UInt8 × List UInt8)} :
    ∀ {fuel : Nat} {m : Mechanism}, ps.length ≤ fuel →
      (∀ p ∈ ps, Writable p ∧ p.1 ≠ propertyIdentity ∧ p.1 ≠ propertySocketType) →
      ((m.zmtpProperties ++ ps).map Prod.fst).Nodup →
      readRecords fuel m (encodeAll ps) =
        ({ m with zmtpProperties := m.zmtpProperties ++ ps }, none) := by
  induction ps with
  | nil =>
    intro fuel m _ _ _
    rw [append_nil]
    cases fuel <;> rfl
  | cons p ps ih =>
    intro fuel m hfuel hps hnodup
    rw [length_cons] at hfuel
    obtain ⟨fuel, rfl⟩ : ∃ k, fuel = k + 1 := ⟨fuel - 1, by omega⟩
    obtain ⟨hw, hi, ht⟩ := hps p (by simp)
    have hnew : p.1 ∉ m.zmtpProperties.map Prod.fst := by
      rw [map_append, nodup_append] at hnodup
      exact fun hmem => hnodup.2.2 _ hmem _ (by simp) rfl
    have hcons : encodeAll (p :: ps) = encodeRecord p.1 p.2 ++ encodeAll ps := flatMap_cons
    rw [hcons, readRecords_record hw, takeProperty_app _ hi ht hnew, andThen,
      ih (by omega) (fun q hq => hps q (by simp [hq])) (by simpa using hnodup)]
    simp

/-- The names of the application differ from those of the protocol. -/
theorem appName_ne (h : ValidOptions o) {p : List UInt8 × List UInt8}
    (hp : p ∈ o.appMetadata) : p.1 ≠ propertyIdentity ∧ p.1 ≠ propertySocketType := by
  obtain ⟨-, -, htake, -⟩ := h p hp
  constructor
  · intro heq
    rw [heq] at htake
    revert htake
    decide
  intro heq
  rw [heq] at htake
  revert htake
  decide

theorem properties_nodup (h : ValidOptions o) (type : List UInt8) :
    ((properties o type).map Prod.fst).Nodup := by
  have hid : propertyIdentity ∉ o.appMetadata.map Prod.fst := fun hmem => by
    obtain ⟨p, hp, heq⟩ := mem_map.mp hmem
    exact (appName_ne h hp).1 heq
  have htype : propertySocketType ∉ o.appMetadata.map Prod.fst := fun hmem => by
    obtain ⟨p, hp, heq⟩ := mem_map.mp hmem
    exact (appName_ne h hp).2 heq
  have hne : propertySocketType ≠ propertyIdentity := by decide
  unfold properties identity
  split
  · simp only [map_cons, cons_append, nil_append]
    exact nodup_cons.mpr ⟨by simp [hne, htype], nodup_cons.mpr ⟨hid, o.appMetadata_nodup⟩⟩
  · exact nodup_cons.mpr ⟨htype, o.appMetadata_nodup⟩

/-- What a new peer knows when it has read the properties of a socket. -/
def informed (o p : MechanismOptions) (type : List UInt8) : Mechanism :=
  { options := p
    routingId := if o.type = .router ∧ p.recvRoutingId = true then o.routingId else []
    zmtpProperties := properties o type }

/-- The identity is kept, and is the routing id if that is requested. -/
theorem readRecords_identity (o : MechanismOptions) (rest : List UInt8) (fuel : Nat)
    (hnew : propertyIdentity ∉ m.zmtpProperties.map Prod.fst) :
    readRecords (fuel + (identity o).length) m (encodeAll (identity o) ++ rest) =
      readRecords fuel
        { m with
          routingId :=
            if o.type = .router ∧ m.options.recvRoutingId = true then o.routingId else m.routingId
          zmtpProperties := m.zmtpProperties ++ identity o } rest := by
  by_cases hr : o.type = .router
  case neg =>
    rw [identity, if_neg hr, append_nil, if_neg fun h => hr h.1]
    rfl
  have hw : Writable (propertyIdentity, o.routingId) :=
    ⟨by dsimp only; decide, by have := o.routingId_le; dsimp only; omega⟩
  have hall : encodeAll [(propertyIdentity, o.routingId)] =
      encodeRecord propertyIdentity o.routingId := by simp [encodeAll]
  rw [identity, if_pos hr, hall, length_singleton, readRecords_record hw]
  by_cases hrecv : m.options.recvRoutingId = true
  · have hinsert := insertProperty_new (m := { m with routingId := o.routingId }) o.routingId hnew
    rw [takeProperty, if_pos ⟨rfl, hrecv⟩, hinsert, if_pos ⟨hr, hrecv⟩]
    rfl
  · rw [takeProperty, if_neg fun h => hrecv h.2, if_neg (by decide), insertProperty_new _ hnew,
      if_neg fun h => hrecv h.2]
    rfl

/-- **The properties are recovered** by a peer that accepts the socket type; another one
refuses them. -/
theorem readRecords_properties (h : ValidOptions o) (ht : socketTypeString o.type = .ok type)
    (p : MechanismOptions) {fuel : Nat} (hfuel : (properties o type).length ≤ fuel) :
    readRecords fuel (new p) (encodeAll (properties o type)) =
      if checkSocketType p type then (informed o p type, none) else (new p, some .einval) := by
  have hw := writable_properties h ht (propertySocketType, type) (by simp [properties])
  have hnodup := properties_nodup h type
  have happ : ∀ q ∈ o.appMetadata,
      Writable q ∧ q.1 ≠ propertyIdentity ∧ q.1 ≠ propertySocketType := fun q hq =>
    ⟨⟨(h q hq).2.1, (h q hq).2.2.2.2.1⟩, appName_ne h hq⟩
  have hall : encodeAll (properties o type) = encodeRecord propertySocketType type ++
      (encodeAll (identity o) ++ encodeAll o.appMetadata) := by
    simp [encodeAll, properties]
  rw [properties, length_cons, length_append] at hfuel
  obtain ⟨k, rfl, hk⟩ : ∃ k, fuel = k + (identity o).length + 1 ∧ o.appMetadata.length ≤ k :=
    ⟨fuel - 1 - (identity o).length, by omega, by omega⟩
  have hopt : (new p).options = p := rfl
  rw [hall, readRecords_record hw, takeProperty, if_neg fun h => absurd h.1 (by decide), if_pos rfl,
    hopt]
  by_cases hcheck : checkSocketType p type = true
  case neg =>
    rw [if_neg hcheck, if_neg hcheck]
    rfl
  have hnew : propertyIdentity ∉
      ((new p).insertProperty propertySocketType type).zmtpProperties.map Prod.fst := by
    change propertyIdentity ∉ [propertySocketType]
    decide
  rw [if_pos hcheck, if_pos hcheck, andThen, readRecords_identity _ _ _ hnew,
    readRecords_app hk happ (by simpa [insertProperty, new, properties] using hnodup)]
  rfl

/-- `parse_metadata` succeeds. -/
def Accepts (m : Mechanism) (data : List UInt8) : Prop :=
  ∃ m', m.parseMetadata data = .ok (m', none)

theorem accepts_router (h : m.options.type = .router) (data : List UInt8) :
    m.Accepts data ↔ WellFormedMetadata data ∨ EndsEarly data := by
  have hiff := readRecords_router h (Nat.le_refl data.length)
  have haccepts : m.Accepts data ↔ (readRecords data.length m data).2 = none := by
    rw [Accepts, parseMetadata_eq]
    constructor
    · rintro ⟨m', heq⟩
      rw [Except.ok.inj heq]
    · intro hnone
      exact ⟨_, congrArg Except.ok (Prod.ext rfl hnone)⟩
  rw [haccepts, hiff]
  obtain ⟨hc, he⟩ := of_verdict data.length data
  constructor
  · intro hne
    cases hv : verdict data.length data with
    | complete => exact Or.inl (hc hv)
    | early => exact Or.inr (he hv)
    | malformed => exact absurd hv hne
  rintro (hw | hearly)
  · rw [verdict_of_wellFormed (Nat.le_refl _) hw]
    decide
  · rw [verdict_of_endsEarly (Nat.le_refl _) hearly]
    decide

end Mechanism

theorem WellFormedMetadata.not_endsEarly {data : List UInt8} (h : WellFormedMetadata data) :
    ¬ EndsEarly data := by
  intro he
  have hc := verdict_of_wellFormed (Nat.le_refl data.length) h
  rw [verdict_of_endsEarly (Nat.le_refl _) he] at hc
  cases hc

/-! ### The exchange -/

namespace NullMechanism

/-- The first command of a socket, with every byte set. -/
def SendsReady (o : MechanismOptions) (data : List UInt8) : Prop :=
  ∃ n, (new o).nextHandshakeCommand = .ok (n, some (data.map some))

/-- What a peer that requests identities or not should know of a socket. -/
structure Recovers (o p : MechanismOptions) (n : NullMechanism) : Prop where
  properties : basicProperties o = .ok n.zmtpProperties
  metadata : ∀ q ∈ o.appMetadata, q ∈ n.zmtpProperties
  routingId : p.recvRoutingId = true → n.routingId = o.routingId

/-- The first command of a socket is accepted by a new peer, which recovers what it says. -/
def ReadyTrip (o p : MechanismOptions) : Prop :=
  ∃ data n, SendsReady o data ∧ (new p).processHandshakeCommand data = .ok (n, none) ∧
    Recovers o p n

theorem sendsReady_iff {o : MechanismOptions} (h : Mechanism.ValidOptions o) {type : List UInt8}
    (ht : socketTypeString o.type = .ok type) (data : List UInt8) :
    SendsReady o data ↔ data = readyCommandName ++ encodeAll (properties o type) := by
  have hmake := makeCommand_eq h ht readyCommandName
  have hnext : (new o).nextHandshakeCommand = .ok ({ new o with readyCommandSent := true },
      some ((readyCommandName ++ encodeAll (properties o type)).map some)) := by
    have hopt : (new o).options = o := rfl
    rw [nextHandshakeCommand, hopt, hmake]
    rfl
  constructor
  · rintro ⟨n, heq⟩
    rw [hnext] at heq
    have hcells := Option.some.inj (Prod.mk.inj (Except.ok.inj heq)).2
    exact (map_injective_iff.mpr (fun _ _ => Option.some.inj) hcells).symm
  · rintro rfl
    exact ⟨_, hnext⟩

/-- A new peer reads a READY command. -/
theorem processHandshakeCommand_ready (p : MechanismOptions) (data : List UInt8) :
    (new p).processHandshakeCommand (readyCommandName ++ data) =
      .ok ({ new p with
        toMechanism := (Mechanism.readRecords data.length (Mechanism.new p) data).1
        readyCommandReceived := true },
        (Mechanism.readRecords data.length (Mechanism.new p) data).2) := by
  have hmech : (new p).toMechanism = Mechanism.new p := rfl
  have hpre : readyCommandName.isPrefixOf (readyCommandName ++ data) = true := by
    rw [ isPrefixOf_iff_prefix]
    exact prefix_append _ _
  rw [processHandshakeCommand, if_neg (by simp [new]), if_pos hpre, processReadyCommand,
    drop_left' rfl, hmech, Mechanism.parseMetadata_eq]

/-- **When the properties arrive.** The peer has to accept the socket type, and if it
requests identities, a socket that is no ROUTER must not have one. -/
theorem readyTrip_iff {o : MechanismOptions} (h : Mechanism.ValidOptions o) (p : MechanismOptions) :
    ReadyTrip o p ↔ (∃ type, socketTypeString o.type = .ok type ∧
        Mechanism.checkSocketType p type = true) ∧
      (p.recvRoutingId = true → o.type = .router ∨ o.routingId = []) := by
  cases ht : socketTypeString o.type with
  | error e =>
    -- A DEALER has no name, and the command cannot be made.
    refine ⟨?_, by rintro ⟨⟨type, hc, -⟩, -⟩; cases hc⟩
    rintro ⟨data, n, -, -, hrec⟩
    have hprops := hrec.properties
    rw [Mechanism.basicProperties, ht] at hprops
    cases hprops
  | ok type =>
    have hread := Mechanism.readRecords_properties h ht p (Mechanism.length_le_encodeAll _)
    have hbasic := Mechanism.basicProperties_eq h ht
    constructor
    · rintro ⟨data, n, hsend, hproc, hrec⟩
      rw [(sendsReady_iff h ht data).mp hsend, processHandshakeCommand_ready, hread] at hproc
      by_cases hcheck : Mechanism.checkSocketType p type = true
      case neg =>
        rw [if_neg hcheck] at hproc
        cases hproc
      rw [if_pos hcheck] at hproc
      cases hproc
      refine ⟨⟨type, rfl, hcheck⟩, fun hrecv => ?_⟩
      by_cases hr : o.type = .router
      · exact Or.inl hr
      · have hid := hrec.routingId hrecv
        simp only [Mechanism.informed, if_neg fun h : _ ∧ _ => hr h.1] at hid
        exact Or.inr hid.symm
    · rintro ⟨⟨type', heq, hcheck⟩, hid⟩
      cases heq
      rw [if_pos hcheck] at hread
      refine ⟨_, _, (sendsReady_iff h ht _).mpr rfl,
        by rw [processHandshakeCommand_ready, hread], ?_, ?_, ?_⟩
      · exact hbasic
      · intro q hq
        exact mem_cons_of_mem _ (mem_append_right _ hq)
      intro hrecv
      rcases hid hrecv with hr | hempty
      · exact if_pos ⟨hr, hrecv⟩
      · rw [hempty]
        simp only [Mechanism.informed, hempty, ite_self]

/-- **The metadata of READY, written and read.** A socket whose type has a name fills its
command, and a ROUTER never reads outside of a string. The properties arrive and the
strings that a ROUTER accepts are the well-formed ones exactly if the peer accepts the
socket type, only a ROUTER has an identity that is requested, and the string does not end
early. -/
theorem readyMetadata_iff (o p : MechanismOptions) (h : Mechanism.ValidOptions o) (m : Mechanism)
    (hm : m.options.type = .router) (data : List UInt8) :
    (o.type ≠ .dealer → ∃ ready, SendsReady o ready) ∧ (∃ r, m.parseMetadata data = .ok r) ∧
      ((ReadyTrip o p ∧ (m.Accepts data ↔ WellFormedMetadata data)) ↔
        ((∃ type, socketTypeString o.type = .ok type ∧ checkSocketType p type = true) ∧
          (p.recvRoutingId = true → o.type = .router ∨ o.routingId = []) ∧ ¬ EndsEarly data)) := by
  refine ⟨fun htype => ?_, ⟨_, parseMetadata_eq m data⟩, ?_⟩
  · obtain ⟨type, ht⟩ : ∃ type, socketTypeString o.type = .ok type := by
      cases hcase : o.type <;> first | exact absurd hcase htype | exact ⟨_, rfl⟩
    exact ⟨_, (sendsReady_iff h ht _).mpr rfl⟩
  have hdata : (m.Accepts data ↔ WellFormedMetadata data) ↔ ¬ EndsEarly data := by
    rw [accepts_router hm data]
    constructor
    · intro hiff hearly
      exact (hiff.mp (Or.inr hearly)).not_endsEarly hearly
    · intro hearly
      exact or_iff_left hearly
  rw [readyTrip_iff h p, hdata, and_assoc]

/-- Options of a ROUTER with an identity of two bytes, and the metadata `X-a: b`. -/
def routerOptions : MechanismOptions :=
  { type := .router, routingId := [65, 0], routingId_le := by decide, recvRoutingId := true,
    appMetadata := [([88, 45, 97], [98])], appMetadata_nodup := by decide }

/-- Options of a SUB socket with an identity. -/
def subOptions : MechanismOptions :=
  { type := .sub, routingId := [65], routingId_le := by decide, recvRoutingId := false,
    appMetadata := [], appMetadata_nodup := by decide }

/-- Two ROUTER sockets, and the metadata of one record. -/
theorem readyMetadata_iff_routers :
    ReadyTrip routerOptions routerOptions ∧
      ((Mechanism.new routerOptions).Accepts [1, 97, 0, 0, 0, 0] ↔
        WellFormedMetadata [1, 97, 0, 0, 0, 0]) := by
  have hvalid : Mechanism.ValidOptions routerOptions := by
    unfold Mechanism.ValidOptions
    decide
  refine (readyMetadata_iff routerOptions routerOptions hvalid (Mechanism.new routerOptions) rfl
    [1, 97, 0, 0, 0, 0]).2.2.mpr ⟨⟨_, rfl, rfl⟩, fun _ => Or.inl rfl, fun hearly => ?_⟩
  have hv := verdict_of_endsEarly (Nat.le_refl _) hearly
  revert hv
  decide

/-- A ROUTER accepts a string that ends after a name, and it does not learn the identity of
a SUB socket. -/
theorem readyMetadata_cut_short :
    ((Mechanism.new routerOptions).Accepts [1, 97] ∧ ¬ WellFormedMetadata [1, 97]) ∧
      ¬ ReadyTrip subOptions routerOptions := by
  refine ⟨⟨⟨Mechanism.new routerOptions, rfl⟩, fun hw => ?_⟩, fun htrip => ?_⟩
  · have hv := verdict_of_wellFormed (Nat.le_refl _) hw
    revert hv
    decide
  have hvalid : Mechanism.ValidOptions subOptions := nofun
  rcases ((readyTrip_iff hvalid routerOptions).mp htrip).2 rfl with hr | hempty
  · cases hr
  · cases hempty

end NullMechanism

end ServerLink
