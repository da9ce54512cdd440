import OpenInstrument.Server.HandleAdd

/-! # Values from the future

A value may be up to a second ahead of the server's clock.  Its age is computed before that is looked at, as an
unsigned difference, so that a value that is ahead is as old as can be.  It is then up to the maximum ages of the
policies whether it is kept.
-/

namespace OpenInstrument.Server

/-! ## The first item that admits a value -/

/-- The search of `GetPolicy`, with any test in place of the age. -/
def firstAdmitted (regexMatch : RegexMatch) (v : Variable) (admits : RetentionPolicyItem → Bool) :
    List (RetentionPolicyItem × StreamVariable) → Except Bytes RetentionPolicyItem
  | [] => .ok defaultPolicy
  | (item, search) :: rest =>
    match v.matches regexMatch (fromProtobuf search) with
    | .error what => .error what
    | .ok false => firstAdmitted regexMatch v admits rest
    | .ok true => if admits item then .ok item else firstAdmitted regexMatch v admits rest

/-- Whether the first item that admits the values of a variable drops them. -/
def firstDrops (regexMatch : RegexMatch) (policies : List RetentionPolicyItem) (v : Variable)
    (admits : RetentionPolicyItem → Bool) : Except Bytes Bool :=
  (firstAdmitted regexMatch v admits (policies.flatMap fun item => item.streamVariable.map (item, ·))).map shouldDrop

def admitsAge (age : UInt64) (item : RetentionPolicyItem) : Bool :=
  !(item.getMinAge != 0 && decide (age < item.getMinAge)) && !(item.getMaxAge != 0 && decide (item.getMaxAge < age))

/-- The item admits the newest values. -/
def isOpenBelow (item : RetentionPolicyItem) : Bool := item.getMinAge == 0

/-- The item admits values whose age lacks so many milliseconds of 2 ^ 64. -/
def isOpenAbove (ahead : Nat) (item : RetentionPolicyItem) : Bool :=
  decide (item.getMinAge.toNat + ahead ≤ 2 ^ 64) &&
    (item.getMaxAge == 0 || decide (2 ^ 64 ≤ item.getMaxAge.toNat + ahead))

variable {hash32 : Bytes → UInt32} {regexMatch : RegexMatch} {server : StoreServer} {now : UInt64} {v : Variable}
  {value : Value UInt64}

theorem findPolicy_eq (regexMatch : RegexMatch) (v : Variable) (age : UInt64)
    (items : List (RetentionPolicyItem × StreamVariable)) :
    findPolicy regexMatch v age items = firstAdmitted regexMatch v (admitsAge age) items := by
  induction items with
  | nil => rfl
  | cons entry rest inductionHypothesis =>
    obtain ⟨item, search⟩ := entry
    rw [findPolicy, firstAdmitted]
    cases v.matches regexMatch (fromProtobuf search) with
    | error what => rfl
    | ok result =>
      cases result with
      | false => exact inductionHypothesis
      | true =>
        -- The two tests of the age are made one after the other.
        by_cases tooNew : item.getMinAge ≠ 0 ∧ age < item.getMinAge
        · simpa [tooNew, admitsAge] using inductionHypothesis
        · by_cases tooOld : item.getMaxAge ≠ 0 ∧ item.getMaxAge < age
          · simpa [tooNew, tooOld, admitsAge] using inductionHypothesis
          · have admits : admitsAge age item = true := by
              simp only [admitsAge, Bool.and_eq_true, Bool.not_eq_true', Bool.and_eq_false_iff, bne_eq_false_iff_eq,
                decide_eq_false_iff_not]
              exact ⟨Decidable.or_iff_not_imp_left.mpr fun set below => tooNew ⟨set, below⟩,
                Decidable.or_iff_not_imp_left.mpr fun set above => tooOld ⟨set, above⟩⟩
            simp [tooNew, tooOld, admits]

theorem admitsAge_zero : admitsAge 0 = isOpenBelow := by
  funext item
  rw [Bool.eq_iff_iff]
  simp [admitsAge, isOpenBelow, UInt64.pos_iff_ne_zero]

/-- The age of a value that is ahead of the clock. -/
theorem toNat_age {timestamp : UInt64} (later : now.toNat < timestamp.toNat) :
    (now - timestamp).toNat + (timestamp.toNat - now.toNat) = 2 ^ 64 := by
  have bound := timestamp.toNat_lt
  rw [UInt64.toNat_sub]
  omega

theorem admitsAge_ahead {timestamp : UInt64} (later : now.toNat < timestamp.toNat) :
    admitsAge (now - timestamp) = isOpenAbove (timestamp.toNat - now.toNat) := by
  have age := toNat_age later
  funext item
  rw [Bool.eq_iff_iff]
  simp only [admitsAge, isOpenAbove, Bool.and_eq_true, Bool.not_eq_true', Bool.and_eq_false_iff, bne_eq_false_iff_eq,
    decide_eq_false_iff_not, decide_eq_true_eq, Bool.or_eq_true, beq_iff_eq, UInt64.lt_iff_toNat_lt]
  have zero : item.getMinAge = 0 ↔ item.getMinAge.toNat = 0 := by
    rw [← UInt64.toNat_inj]
    rfl
  rw [zero]
  constructor
  · intro admits
    exact ⟨by omega, admits.2.imp_right fun below => by omega⟩
  · intro admits
    exact ⟨by omega, admits.2.imp_right fun below => by omega⟩

/-! ## One value -/

theorem getPolicy_drops (regexMatch : RegexMatch) (policies : List RetentionPolicyItem) (v : Variable) (age : UInt64) :
    (getPolicy regexMatch policies v age).map shouldDrop = firstDrops regexMatch policies v (admitsAge age) := by
  rw [getPolicy, findPolicy_eq, firstDrops]

/-- What becomes of a value, given whether its policy drops it. -/
def decision (now timestamp : UInt64) : Except Bytes Bool → Option Bool
  | .error _ => none
  | .ok true => some false
  | .ok false => if now + 1000 < timestamp then none else some true

theorem keepValue_decision (regexMatch : RegexMatch) (server : StoreServer) (now : UInt64) (v : Variable)
    (value : Value UInt64) :
    (keepValue regexMatch server now v value).toOption =
      decision now value.timestamp
        (firstDrops regexMatch server.retentionPolicy v (admitsAge (now - value.timestamp))) := by
  rw [← getPolicy_drops, keepValue]
  cases getPolicy regexMatch server.retentionPolicy v (now - value.timestamp) with
  | error what => rfl
  | ok policy =>
    show _ = decision now value.timestamp (.ok (shouldDrop policy))
    cases dropped : shouldDrop policy with
    | true => simp [decision, dropped, Except.toOption]
    | false =>
      by_cases future : now + 1000 < value.timestamp
      · simp [decision, dropped, future, Except.toOption]
      · simp [decision, dropped, future, Except.toOption]

/-! ## The law -/

/-- The value is refused, and every request that brings it here to be recorded is answered without success. -/
def FailsRequest (hash32 : Bytes → UInt32) (regexMatch : RegexMatch) (server : StoreServer) (now : UInt64)
    (v : Variable) (value : Value UInt64) : Prop :=
  ¬ Accepted regexMatch server now v value ∧
    ∀ (source : Bytes) (answer : Bytes → Option AddResponse) (request : AddRequest), ∀ stream ∈ request.stream,
      namedVariable source stream = v → destination hash32 server request.forwarded v = .ok none →
      value ∈ stream.value →
      ∃ error, (handleAdd hash32 regexMatch server now source answer (some request)).reply =
        .response { success := false, errormessage := some error }

/-- Up to a second ahead of the clock a value is treated as a value of now.  Beyond that the request fails, unless
values of now are dropped. -/
structure DriftLaw (hash32 : Bytes → UInt32) (regexMatch : RegexMatch) (server : StoreServer) (now : UInt64)
    (v : Variable) (value : Value UInt64) : Prop where
  near : now.toNat < value.timestamp.toNat → value.timestamp.toNat ≤ now.toNat + 1000 →
    (keepValue regexMatch server now v value).toOption =
      (keepValue regexMatch server now v { value with timestamp := now }).toOption
  far : now.toNat + 1000 < value.timestamp.toNat →
    (getPolicy regexMatch server.retentionPolicy v 0).map shouldDrop = .ok true ∨
      FailsRequest hash32 regexMatch server now v value

/-- The policies say the same of the newest values and of the ones that are as old as can be. -/
def AgreesAhead (regexMatch : RegexMatch) (policies : List RetentionPolicyItem) (v : Variable)
    (now timestamp : UInt64) : Prop :=
  let newest := firstDrops regexMatch policies v isOpenBelow
  let oldest := firstDrops regexMatch policies v (isOpenAbove (timestamp.toNat - now.toNat))
  timestamp.toNat ≤ now.toNat ∨
    (timestamp.toNat ≤ now.toNat + 1000 ∧
      (oldest.toOption = newest.toOption ∨ 2 ^ 64 ≤ now.toNat + 1000 ∧ oldest ≠ .ok true ∧ newest ≠ .ok true)) ∨
    (now.toNat + 1000 < timestamp.toNat ∧ (newest = .ok true ∨ oldest ≠ .ok true))

theorem failsRequest_iff : FailsRequest hash32 regexMatch server now v value ↔
    ¬ Accepted regexMatch server now v value := by
  constructor
  · exact fun fails => fails.1
  · intro refused
    refine ⟨refused, fun source answer request stream member named here inside => ?_⟩
    have nonempty : request.stream ≠ [] := List.ne_nil_of_mem member
    have stopped :
        (addStreams hash32 regexMatch server now source request.forwarded .empty request.stream).2 ≠ none := by
      intro finished
      obtain ⟨node, sent, values⟩ := (addStreams_none .empty).mp finished stream member
      rw [named, here] at sent
      rw [named] at values
      exact refused (values (Except.ok.inj sent).symm value inside)
    obtain ⟨error, failed⟩ := Option.ne_none_iff_exists'.mp stopped
    exact ⟨error, by simp [handleAdd, nonempty, failed]⟩

theorem accepted_iff_toOption :
    Accepted regexMatch server now v value ↔ (keepValue regexMatch server now v value).toOption ≠ none := by
  rw [Accepted]
  cases keepValue regexMatch server now v value with
  | error error => simp [Except.toOption]
  | ok kept => simp [Except.toOption]

/-- Within the allowance a value is kept or dropped as the policy says. -/
theorem decision_within {timestamp : UInt64} (within : ¬ now + 1000 < timestamp) (dropped : Except Bytes Bool) :
    decision now timestamp dropped = dropped.toOption.map not := by
  cases dropped with
  | error what => rfl
  | ok result =>
    cases result with
    | true => rfl
    | false => simp [decision, within, Except.toOption]

/-- Beyond the allowance a value is dropped or refused. -/
theorem decision_beyond {timestamp : UInt64} (beyond : now + 1000 < timestamp) (dropped : Except Bytes Bool) :
    decision now timestamp dropped = if dropped.toOption = some true then some false else none := by
  cases dropped with
  | error what => rfl
  | ok result =>
    cases result with
    | true => rfl
    | false => simp [decision, beyond, Except.toOption]

theorem toOption_eq_true {dropped : Except Bytes Bool} : dropped.toOption = some true ↔ dropped = .ok true := by
  cases dropped with
  | error what => simp [Except.toOption]
  | ok result => simp [Except.toOption]

theorem map_not_inj {first second : Option Bool} : first.map not = second.map not ↔ first = second := by
  cases first <;> cases second <;> simp

theorem decision_eq_iff {timestamp : UInt64} (later : now.toNat < timestamp.toNat)
    (close : timestamp.toNat ≤ now.toNat + 1000) (oldest newest : Except Bytes Bool) :
    decision now timestamp oldest = decision now now newest ↔
      oldest.toOption = newest.toOption ∨ 2 ^ 64 ≤ now.toNat + 1000 ∧ oldest ≠ .ok true ∧ newest ≠ .ok true := by
  have bound := now.toNat_lt
  have allowance : (now + 1000).toNat = (now.toNat + 1000) % 2 ^ 64 := UInt64.toNat_add now 1000
  rw [Ne, Ne, ← toOption_eq_true, ← toOption_eq_true]
  by_cases wraps : 2 ^ 64 ≤ now.toNat + 1000
  · -- The allowance wraps around, and what is not dropped is refused at any time.
    rw [decision_beyond (UInt64.lt_iff_toNat_lt.mpr (by omega)),
      decision_beyond (UInt64.lt_iff_toNat_lt.mpr (by omega))]
    by_cases first : oldest.toOption = some true
    · by_cases second : newest.toOption = some true
      · simp [first, second]
      · simp [first, second, Ne.symm second]
    · by_cases second : newest.toOption = some true
      · simp [first, second]
      · simpa [first, second] using .inr (by omega)
  · have within : ∀ time : UInt64, time.toNat ≤ timestamp.toNat → ¬ now + 1000 < time := by
      intro time early ahead
      have := UInt64.lt_iff_toNat_lt.mp ahead
      omega
    rw [decision_within (within timestamp le_rfl), decision_within (within now (le_of_lt later)), map_not_inj]
    constructor
    · exact .inl
    · exact fun either => either.resolve_right fun other => wraps other.1

theorem decision_none_iff {timestamp : UInt64} (far : now.toNat + 1000 < timestamp.toNat)
    (oldest : Except Bytes Bool) : decision now timestamp oldest = none ↔ oldest ≠ .ok true := by
  have bound := timestamp.toNat_lt
  have allowance : (now + 1000).toNat = (now.toNat + 1000) % 2 ^ 64 := UInt64.toNat_add now 1000
  rw [decision_beyond (UInt64.lt_iff_toNat_lt.mpr (by omega)), Ne, ← toOption_eq_true]
  simp

/-- The law holds for a value exactly when the policies admit it as they admit the newest values. -/
theorem driftLaw_iff (hash32 : Bytes → UInt32) (regexMatch : RegexMatch) (server : StoreServer) (now : UInt64)
    (v : Variable) (value : Value UInt64) :
    DriftLaw hash32 regexMatch server now v value ↔
      AgreesAhead regexMatch server.retentionPolicy v now value.timestamp := by
  have here := keepValue_decision regexMatch server now v value
  have atNow := keepValue_decision regexMatch server now v { value with timestamp := now }
  have newest : (getPolicy regexMatch server.retentionPolicy v 0).map shouldDrop =
      firstDrops regexMatch server.retentionPolicy v isOpenBelow := by rw [getPolicy_drops, admitsAge_zero]
  have self : admitsAge (now - now) = isOpenBelow := by rw [UInt64.sub_self, admitsAge_zero]
  rw [self] at atNow
  by_cases past : value.timestamp.toNat ≤ now.toNat
  · -- Nothing is said of a value that is not ahead.
    constructor
    · exact fun _ => .inl past
    · exact fun _ => ⟨fun later => absurd later (by omega), fun far => absurd far (by omega)⟩
  · have later : now.toNat < value.timestamp.toNat := not_le.mp past
    rw [admitsAge_ahead later] at here
    by_cases close : value.timestamp.toNat ≤ now.toNat + 1000
    -- Close ahead the two decisions must agree, and each is one question to the policies.
    · have same := decision_eq_iff later close
        (firstDrops regexMatch server.retentionPolicy v (isOpenAbove (value.timestamp.toNat - now.toNat)))
        (firstDrops regexMatch server.retentionPolicy v isOpenBelow)
      constructor
      · intro law
        have near := law.near later close
        rw [here, atNow] at near
        exact .inr (.inl ⟨close, same.mp near⟩)
      · intro agrees
        refine ⟨fun _ _ => ?_, fun far => absurd far (by omega)⟩
        rw [here, atNow]
        obtain past' | ⟨-, agree⟩ | ⟨far, -⟩ := agrees
        · exact absurd past' past
        · exact same.mpr agree
        · exact absurd far (by omega)
    · have far : now.toNat + 1000 < value.timestamp.toNat := not_le.mp close
      -- Far ahead nothing is stored, so the request fails unless the policies drop the value first.
      have refused : FailsRequest hash32 regexMatch server now v value ↔
          firstDrops regexMatch server.retentionPolicy v (isOpenAbove (value.timestamp.toNat - now.toNat)) ≠
            .ok true := by
        rw [failsRequest_iff, accepted_iff_toOption, here, not_not, decision_none_iff far]
      constructor
      · intro law
        have fails := law.far far
        rw [newest, refused] at fails
        exact .inr (.inr ⟨far, fails⟩)
      · intro agrees
        refine ⟨fun _ near => absurd near close, fun _ => ?_⟩
        rw [newest, refused]
        obtain past' | ⟨near, -⟩ | ⟨-, agree⟩ := agrees
        · exact absurd past' past
        · exact absurd near close
        · exact agree

/-- A server that keeps everything for 28 days, and an own value that is one millisecond ahead of its clock. -/
theorem driftLaw_fails :
    ¬ DriftLaw (fun _ => 0) (fun _ _ => .ok false)
      { address := ascii "a:8020", hashRing := { replicas := 1, ring := OrderedMap.empty.set 0 (ascii "a:8020") }
        retentionPolicy :=
          [{ streamVariable := [{ name := ascii "*", label := [], type := none }]
             policy := .keep, minAge := some 0, maxAge := some 2419200000 }] }
      1500000000000 { name := ascii "/cpu", labels := .empty, type := .unknown }
      { timestamp := 1500000000001, doubleValue := some 0, stringValue := none, endTimestamp := none } := by
  intro law
  have near := law.near (by decide) (by decide)
  revert near
  decide

end OpenInstrument.Server
