import VoiceAgent.BookingDatabase
import VoiceAgent.FlightBooking

/-!
What the mutations leave of the booking database. Each of them changes the rows of one active PNR
or adds the two rows of a new one, and issues one code with one entry in the activity log; a
mutation without a result changes nothing but, for a booking, the schedule. From this the keys
stay unique, PNRs and ancillaries stay in step, and what is cancelled stays as it is.
-/
namespace VoiceAgent.BookingIntegrity

open StreamingEvents (Text)
open FlightSearch BookingDatabase
open BookingFlow (TextOps)
open BookingConfirmation (asciiOps)
open IsoTimes (isoTimes)

section Invariant

/-- The constraints of the schema, and an ancillary row to every PNR. -/
structure Sound (db : Tables) : Prop where
  flightIds : db.flightIds.Nodup
  flightsBefore : ∀ f ∈ db.flights, f.id < db.nextFlight
  slots : db.flights.Pairwise fun f g => ¬SameSlot f.toFlightRow g.toFlightRow
  pnrs : db.pnrKeys.Nodup
  ancillaries : db.ancillaryKeys.Nodup
  matched : ∀ pnr, pnr ∈ db.ancillaryKeys ↔ pnr ∈ db.pnrKeys
  booked : ∀ p ∈ db.pnrs, p.flightId ∈ db.flightIds
  codes : db.codeKeys.Nodup

/-- The rows of one PNR. -/
def rows (db : Tables) (pnr : Text) : List PnrEntry × List Ancillary :=
  (db.pnrs.filter fun p => p.pnr = pnr, db.ancillaries.filter fun a => a.pnr = pnr)

def Cancelled (db : Tables) (pnr : Text) : Prop :=
  ∃ p ∈ db.pnrs, p.pnr = pnr ∧ p.status = "cancelled".toList

instance (db : Tables) (pnr : Text) : Decidable (Cancelled db pnr) :=
  inferInstanceAs (Decidable (∃ p ∈ db.pnrs, _))

def Active (db : Tables) (pnr : Text) : Prop :=
  ∃ p ∈ db.pnrs, p.pnr = pnr ∧ p.status = "active".toList

/-- A mutation under way: its code and its entry in the log. -/
structure Record where
  code : IssuedCode
  row : Activity

structure Record.Fresh (r : Record) (db : Tables) (pnr action : Text) : Prop where
  unissued : r.code.code ∉ db.codeKeys
  codePnr : r.code.pnr = pnr
  codeAction : r.code.action = action
  logged : r.row.confirmationCode = some r.code.code
  rowPnr : r.row.pnr = pnr
  rowAction : r.row.action = action

def record (db : Tables) (r : Record) : Tables :=
  { db with codes := db.codes ++ [r.code], activity := db.activity ++ [r.row] }

def addBooking (db : Tables) (p : PnrEntry) (a : Ancillary) : Tables :=
  { db with pnrs := db.pnrs ++ [p], ancillaries := db.ancillaries ++ [a] }

/-- What a transaction can do: nothing, or schedule a flight; or change the rows of an active
PNR, or add those of a new one, and record it. -/
inductive Effect (db : Tables) : Option (Text × Text × Text) → Tables → Prop
  | none : Effect db none db
  | scheduled (row : FlightRow) : Effect db none (db.insertFlight row)
  | edited (pnr action : Text) (f : PnrEntry → PnrEntry) (g : Ancillary → Ancillary) (r : Record)
      (hactive : Active db pnr) (haction : action ≠ "BOOK".toList)
      (hf : ∀ p, (f p).pnr = p.pnr) (hg : ∀ a, (g a).pnr = a.pnr)
      (hflight : ∀ p ∈ db.pnrs, (f p).flightId ∈ db.flightIds)
      (hr : r.Fresh db pnr action) :
      Effect db (some (pnr, action, r.code.code))
        (record ((db.updatePnr pnr f).updateAncillary pnr g) r)
  | created (base : Tables) (p : PnrEntry) (a : Ancillary) (r : Record)
      (hbase : base = db ∨ ∃ row, base = db.insertFlight row)
      (hnew : p.pnr ∉ db.pnrKeys) (ha : a.pnr = p.pnr) (hflight : p.flightId ∈ base.flightIds)
      (hr : r.Fresh db p.pnr "BOOK".toList) :
      Effect db (some (p.pnr, "BOOK".toList, r.code.code)) (record (addBooking base p a) r)

end Invariant

section Keys
variable {db : Tables} {pnr : Text}

theorem pnrKeys_updatePnr {f : PnrEntry → PnrEntry} (hf : ∀ p, (f p).pnr = p.pnr) :
    (db.updatePnr pnr f).pnrKeys = db.pnrKeys := by
  unfold Tables.pnrKeys Tables.updatePnr
  rw [List.map_map]
  apply List.map_congr_left
  intro p _
  rw [Function.comp_apply]
  split
  · exact hf p
  · rfl

theorem ancillaryKeys_updateAncillary {g : Ancillary → Ancillary} (hg : ∀ a, (g a).pnr = a.pnr) :
    (db.updateAncillary pnr g).ancillaryKeys = db.ancillaryKeys := by
  unfold Tables.ancillaryKeys Tables.updateAncillary
  rw [List.map_map]
  apply List.map_congr_left
  intro a _
  rw [Function.comp_apply]
  split
  · exact hg a
  · rfl

theorem insertFlight_eq (db : Tables) (row : FlightRow) :
    db.insertFlight row = db ∨ (¬∃ f ∈ db.flights, SameSlot f.toFlightRow row) ∧
      db.insertFlight row = { db with
        flights := db.flights ++ [{ toFlightRow := row, id := db.nextFlight }]
        nextFlight := db.nextFlight + 1 } := by
  unfold Tables.insertFlight
  split
  · exact .inl rfl
  · exact .inr ⟨‹_›, rfl⟩

/-- A flight that is scheduled leaves all other tables as they are. -/
theorem insertFlight_tables (db : Tables) (row : FlightRow) :
    (db.insertFlight row).pnrs = db.pnrs ∧ (db.insertFlight row).ancillaries = db.ancillaries ∧
      (db.insertFlight row).activity = db.activity ∧ (db.insertFlight row).codes = db.codes ∧
      db.flightIds ⊆ (db.insertFlight row).flightIds := by
  rcases insertFlight_eq db row with h | ⟨-, h⟩
  · rw [h]
    exact ⟨rfl, rfl, rfl, rfl, List.Subset.refl _⟩
  · rw [h]
    refine ⟨rfl, rfl, rfl, rfl, ?_⟩
    unfold Tables.flightIds
    rw [List.map_append]
    exact List.subset_append_left _ _

end Keys

section Soundness
variable {db : Tables} {pnr : Text}

theorem Sound.insertFlight (h : Sound db) (row : FlightRow) : Sound (db.insertFlight row) := by
  rcases insertFlight_eq db row with hsame | ⟨hfree, heq⟩
  · rw [hsame]
    exact h
  · obtain ⟨hpnrs, hanc, -, hcodes, hids⟩ := insertFlight_tables db row
    have hbefore : ∀ f ∈ db.flights, f.id ≠ db.nextFlight :=
      fun f hf => (h.flightsBefore f hf).ne
    refine {
      flightIds := ?_
      flightsBefore := ?_
      slots := ?_
      pnrs := by rw [Tables.pnrKeys, hpnrs]; exact h.pnrs
      ancillaries := by rw [Tables.ancillaryKeys, hanc]; exact h.ancillaries
      matched := fun pnr => by
        rw [Tables.ancillaryKeys, Tables.pnrKeys, hanc, hpnrs]
        exact h.matched pnr
      booked := fun p hp => hids (h.booked p (hpnrs ▸ hp))
      codes := by rw [Tables.codeKeys, hcodes]; exact h.codes }
    · rw [heq]
      unfold Tables.flightIds
      rw [List.map_append, List.nodup_append]
      refine ⟨h.flightIds, List.nodup_singleton _, ?_⟩
      intro id hid new hnew
      obtain ⟨f, hf, rfl⟩ := List.mem_map.mp hid
      rw [List.mem_singleton.mp hnew]
      exact hbefore f hf
    · rw [heq]
      intro f hf
      rcases List.mem_append.mp hf with hf | hf
      · exact (h.flightsBefore f hf).trans (Nat.lt_succ_self _)
      · rw [List.mem_singleton.mp hf]
        exact Nat.lt_succ_self _
    · rw [heq]
      refine List.pairwise_append.mpr ⟨h.slots, List.pairwise_singleton _ _, ?_⟩
      intro f hf g hg
      rw [List.mem_singleton.mp hg]
      exact fun hsame => hfree ⟨f, hf, hsame⟩

theorem Sound.edit (h : Sound db) {f : PnrEntry → PnrEntry} {g : Ancillary → Ancillary}
    (hf : ∀ p, (f p).pnr = p.pnr) (hg : ∀ a, (g a).pnr = a.pnr)
    (hflight : ∀ p ∈ db.pnrs, (f p).flightId ∈ db.flightIds) :
    Sound ((db.updatePnr pnr f).updateAncillary pnr g) := by
  have hpnrs : ((db.updatePnr pnr f).updateAncillary pnr g).pnrKeys = db.pnrKeys :=
    pnrKeys_updatePnr hf
  have hanc : ((db.updatePnr pnr f).updateAncillary pnr g).ancillaryKeys = db.ancillaryKeys :=
    ancillaryKeys_updateAncillary hg
  refine {
    flightIds := h.flightIds
    flightsBefore := h.flightsBefore
    slots := h.slots
    pnrs := hpnrs ▸ h.pnrs
    ancillaries := hanc ▸ h.ancillaries
    matched := fun k => by rw [hpnrs, hanc]; exact h.matched k
    booked := fun p hp => ?_
    codes := h.codes }
  obtain ⟨q, hq, rfl⟩ := List.mem_map.mp hp
  change (if q.pnr = pnr then f q else q).flightId ∈ db.flightIds
  split
  · exact hflight q hq
  · exact h.booked q hq

theorem Sound.record (h : Sound db) {r : Record} (hnew : r.code.code ∉ db.codeKeys) :
    Sound (record db r) := by
  have hcodes : (BookingIntegrity.record db r).codeKeys = db.codeKeys ++ [r.code.code] :=
    List.map_append
  refine { h with codes := ?_ }
  rw [hcodes, List.nodup_append]
  refine ⟨h.codes, List.nodup_singleton _, ?_⟩
  intro code hcode new hmem
  rw [List.mem_singleton.mp hmem]
  exact fun heq => hnew (heq ▸ hcode)

theorem Sound.addBooking (h : Sound db) {p : PnrEntry} {a : Ancillary}
    (hnew : p.pnr ∉ db.pnrKeys) (ha : a.pnr = p.pnr) (hflight : p.flightId ∈ db.flightIds) :
    Sound (addBooking db p a) := by
  have hpnrs : (BookingIntegrity.addBooking db p a).pnrKeys = db.pnrKeys ++ [p.pnr] :=
    List.map_append
  have hanc : (BookingIntegrity.addBooking db p a).ancillaryKeys = db.ancillaryKeys ++ [p.pnr] := by
    rw [← ha]
    exact List.map_append
  have happend : ∀ {keys : List Text}, keys.Nodup → p.pnr ∉ keys → (keys ++ [p.pnr]).Nodup := by
    intro keys hkeys hfree
    rw [List.nodup_append]
    refine ⟨hkeys, List.nodup_singleton _, ?_⟩
    intro key hkey new hmem
    rw [List.mem_singleton.mp hmem]
    exact fun heq => hfree (heq ▸ hkey)
  refine {
    flightIds := h.flightIds
    flightsBefore := h.flightsBefore
    slots := h.slots
    pnrs := hpnrs ▸ happend h.pnrs hnew
    ancillaries := hanc ▸ happend h.ancillaries (mt (h.matched _).mp hnew)
    matched := fun k => by rw [hpnrs, hanc, List.mem_append, List.mem_append, h.matched]
    booked := fun q hq => ?_
    codes := h.codes }
  rcases List.mem_append.mp hq with hq | hq
  · exact h.booked q hq
  · rw [List.mem_singleton.mp hq]
    exact hflight

/-- Whatever a transaction does, the invariant holds after it. -/
theorem Sound.effect {out : Option (Text × Text × Text)} {db' : Tables} (h : Sound db)
    (he : Effect db out db') : Sound db' := by
  cases he with
  | none => exact h
  | scheduled row => exact h.insertFlight row
  | edited _ _ _ _ _ _ _ hf hg hflight hr => exact (h.edit hf hg hflight).record hr.unissued
  | created base p a r hbase hnew ha hflight hr =>
    rcases hbase with rfl | ⟨row, rfl⟩
    · exact (h.addBooking hnew ha hflight).record hr.unissued
    · obtain ⟨hpnrs, -, -, hcodes, -⟩ := insertFlight_tables db row
      have hnew' : p.pnr ∉ (db.insertFlight row).pnrKeys := by
        rw [Tables.pnrKeys, hpnrs]
        exact hnew
      refine ((h.insertFlight row).addBooking hnew' ha hflight).record ?_
      change _ ∉ (db.insertFlight row).codeKeys
      rw [Tables.codeKeys, hcodes]
      exact hr.unissued

end Soundness

section Frozen
variable {db db' : Tables} {pnr k : Text}

theorem filter_updatePnr {f : PnrEntry → PnrEntry} (hf : ∀ p, (f p).pnr = p.pnr) (hk : k ≠ pnr) :
    (db.updatePnr pnr f).pnrs.filter (fun p => p.pnr = k) =
      db.pnrs.filter fun p => p.pnr = k := by
  unfold Tables.updatePnr
  induction db.pnrs with
  | nil => rfl
  | cons p rest ih =>
    rw [List.map_cons, List.filter_cons, List.filter_cons, ih]
    by_cases hp : p.pnr = pnr
    · have hne : p.pnr ≠ k := fun heq => hk (heq ▸ hp)
      simp [hp, hf, hk.symm]
    · simp [hp]

theorem filter_updateAncillary {g : Ancillary → Ancillary} (hg : ∀ a, (g a).pnr = a.pnr)
    (hk : k ≠ pnr) :
    (db.updateAncillary pnr g).ancillaries.filter (fun a => a.pnr = k) =
      db.ancillaries.filter fun a => a.pnr = k := by
  unfold Tables.updateAncillary
  induction db.ancillaries with
  | nil => rfl
  | cons a rest ih =>
    rw [List.map_cons, List.filter_cons, List.filter_cons, ih]
    by_cases ha : a.pnr = pnr
    · simp [ha, hg, hk.symm]
    · simp [ha]

theorem Sound.eq_of_pnr (h : Sound db) {p q : PnrEntry} (hp : p ∈ db.pnrs) (hq : q ∈ db.pnrs)
    (heq : p.pnr = q.pnr) : p = q :=
  List.inj_on_of_nodup_map h.pnrs hp hq heq

theorem Sound.ne_of_cancelled (h : Sound db) (hk : Cancelled db k) (hactive : Active db pnr) :
    k ≠ pnr := by
  rintro rfl
  obtain ⟨p, hp, hpk, hcancelled⟩ := hk
  obtain ⟨q, hq, hqk, hact⟩ := hactive
  rw [h.eq_of_pnr hp hq (hpk.trans hqk.symm), hact] at hcancelled
  exact absurd hcancelled (by decide)

/-- The rows of a cancelled PNR are left alone. -/
theorem rows_effect {out : Option (Text × Text × Text)} (h : Sound db) (he : Effect db out db')
    (hk : Cancelled db k) : rows db' k = rows db k := by
  have hscheduled : ∀ row, rows (db.insertFlight row) k = rows db k := by
    intro row
    obtain ⟨hpnrs, hanc, -, -, -⟩ := insertFlight_tables db row
    rw [rows, hpnrs, hanc]
    rfl
  cases he with
  | none => rfl
  | scheduled row => exact hscheduled row
  | edited _ _ _ _ _ hactive _ hf hg _ _ =>
    have hne := h.ne_of_cancelled hk hactive
    exact Prod.ext (filter_updatePnr hf hne) (filter_updateAncillary hg hne)
  | created base p a r hbase hnew ha _ _ =>
    have hne : p.pnr ≠ k := by
      obtain ⟨q, hq, hqk, -⟩ := hk
      rintro rfl
      exact hnew (List.mem_map.mpr ⟨q, hq, hqk⟩)
    have hadd : rows (record (addBooking base p a) r) k = rows base k := by
      have hpnrs : (base.pnrs ++ [p]).filter (fun p => p.pnr = k) =
          base.pnrs.filter fun p => p.pnr = k := by
        rw [List.filter_append, List.filter_cons_of_neg (by simpa using hne), List.filter_nil,
          List.append_nil]
      have hanc : (base.ancillaries ++ [a]).filter (fun a => a.pnr = k) =
          base.ancillaries.filter fun a => a.pnr = k := by
        rw [List.filter_append, List.filter_cons_of_neg (by simpa [ha] using hne), List.filter_nil,
          List.append_nil]
      exact Prod.ext hpnrs hanc
    rw [hadd]
    rcases hbase with rfl | ⟨row, rfl⟩
    · rfl
    · exact hscheduled row

theorem cancelled_of_rows (heq : rows db' k = rows db k) (hk : Cancelled db k) :
    Cancelled db' k := by
  obtain ⟨p, hp, hpk, hcancelled⟩ := hk
  have hmem : p ∈ db.pnrs.filter fun p => p.pnr = k :=
    List.mem_filter.mpr ⟨hp, decide_eq_true hpk⟩
  rw [← (Prod.mk.inj heq).1] at hmem
  exact ⟨p, (List.mem_filter.mp hmem).1, hpk, hcancelled⟩

end Frozen

section Recorded
variable {db db' : Tables}

/-- A mutation with a result: one code that was not issued before, one entry in the log that
carries it, and for a booking a new PNR. -/
def Recorded (db db' : Tables) (pnr action code : Text) : Prop :=
  (∃ issued : IssuedCode, db'.codes = db.codes ++ [issued] ∧ issued.code = code ∧
    code ∉ db.codeKeys ∧ issued.pnr = pnr ∧ issued.action = action) ∧
  (∃ row : Activity, db'.activity = db.activity ++ [row] ∧ row.confirmationCode = some code ∧
    row.pnr = pnr ∧ row.action = action) ∧
  (action = "BOOK".toList → pnr ∉ db.pnrKeys ∧ pnr ∈ db'.pnrKeys)

theorem recorded_effect {pnr action code : Text} (he : Effect db (some (pnr, action, code)) db') :
    Recorded db db' pnr action code := by
  cases he with
  | edited _ _ f g r _ haction _ _ _ hr =>
    exact ⟨⟨r.code, rfl, rfl, hr.unissued, hr.codePnr, hr.codeAction⟩,
      ⟨r.row, rfl, hr.logged, hr.rowPnr, hr.rowAction⟩, fun hbook => absurd hbook haction⟩
  | created base p a r hbase hnew ha _ hr =>
    have htables : base.codes = db.codes ∧ base.activity = db.activity := by
      rcases hbase with rfl | ⟨row, rfl⟩
      · exact ⟨rfl, rfl⟩
      · obtain ⟨-, -, hactivity, hcodes, -⟩ := insertFlight_tables db row
        exact ⟨hcodes, hactivity⟩
    refine ⟨⟨r.code, ?_, rfl, hr.unissued, hr.codePnr, hr.codeAction⟩,
      ⟨r.row, ?_, hr.logged, hr.rowPnr, hr.rowAction⟩, fun _ => ⟨hnew, ?_⟩⟩
    · exact congrArg (· ++ [r.code]) htables.1
    · exact congrArg (· ++ [r.row]) htables.2
    · exact List.mem_map.mpr ⟨p, List.mem_append_right _ (List.mem_singleton_self p), rfl⟩

end Recorded

section Bodies
variable {T : TextOps} {C : Datetimes} {w : World} {db db' : Tables} {pnr action code : Text}

theorem bind_eq_ok {α β : Type} {x : Except Failure α} {k : α → Except Failure β} {b : β} :
    x >>= k = .ok b ↔ ∃ a, x = .ok a ∧ k a = .ok b := by
  cases x with
  | error e => simp [bind, Except.bind]
  | ok a => simp [bind, Except.bind]

theorem issueCode_ok (h : issueCode w db pnr action = .ok (code, db')) :
    code ∉ db.codeKeys ∧ db' = { db with
      codes := db.codes ++
        [{ code := code, pnr := pnr, action := action, issuedAt := w.now 1 }] } := by
  unfold issueCode at h
  split at h
  · cases h
  · rename_i found hfind
    have hfree : found ∉ db.codeKeys := by simpa using List.find?_some hfind
    obtain ⟨rfl, rfl⟩ := Prod.mk.inj (Except.ok.inj h)
    exact ⟨hfree, rfl⟩

theorem fetch_mem {row : JoinedRow} (h : db.fetchPnrRow pnr = some row) :
    row.pnr ∈ db.pnrs ∧ row.pnr.pnr = pnr := by
  unfold Tables.fetchPnrRow at h
  obtain ⟨p, hp, h⟩ := Option.bind_eq_some_iff.mp h
  obtain ⟨f, -, h⟩ := Option.bind_eq_some_iff.mp h
  obtain rfl := Option.some.inj h
  exact ⟨List.mem_of_find?_eq_some hp, by simpa using List.find?_some hp⟩

theorem active_of_fetch {row : JoinedRow} (h : db.fetchPnrRow pnr = some row)
    (hactive : isActive row) : Active db pnr :=
  ⟨row.pnr, (fetch_mem h).1, (fetch_mem h).2, hactive⟩

theorem updatePnr_id (db : Tables) (pnr : Text) : db.updatePnr pnr id = db := by
  unfold Tables.updatePnr
  simp

theorem updateAncillary_id (db : Tables) (pnr : Text) : db.updateAncillary pnr id = db := by
  unfold Tables.updateAncillary
  simp

/-- The seat and the meal are all that is changed of the ancillaries. -/
theorem applyAncillary_eq (T : TextOps) (db : Tables) (pnr : Text) (seat meal : Option Text) :
    ∃ g : Ancillary → Ancillary, (∀ a, (g a).pnr = a.pnr) ∧
      applyAncillaryUpdates T db pnr seat meal = db.updateAncillary pnr g := by
  have hkept : ∃ g : Ancillary → Ancillary, (∀ a, (g a).pnr = a.pnr) ∧
      db = db.updateAncillary pnr g :=
    ⟨id, fun _ => rfl, (updateAncillary_id db pnr).symm⟩
  unfold applyAncillaryUpdates
  dsimp only
  split
  · exact hkept
  · split
    · exact hkept
    · split
      · exact hkept
      · refine ⟨_, ?_, rfl⟩
        exact fun _ => rfl

/-- A code issued for the changed rows of an active PNR, and the entry that goes with it. -/
theorem edited_issue {mid issued : Tables} {f : PnrEntry → PnrEntry} {g : Ancillary → Ancillary}
    {row : Activity} (hissue : issueCode w mid pnr action = .ok (code, issued))
    (hmid : mid = (db.updatePnr pnr f).updateAncillary pnr g) (hactive : Active db pnr)
    (haction : action ≠ "BOOK".toList) (hf : ∀ p, (f p).pnr = p.pnr)
    (hg : ∀ a, (g a).pnr = a.pnr) (hflight : ∀ p ∈ db.pnrs, (f p).flightId ∈ db.flightIds)
    (hcode : row.confirmationCode = some code) (hpnr : row.pnr = pnr)
    (hrow : row.action = action) :
    Effect db (some (pnr, action, code)) (issued.logActivity row) := by
  obtain ⟨hfree, rfl⟩ := issueCode_ok hissue
  subst hmid
  exact .edited pnr action f g
    { code := { code := code, pnr := pnr, action := action, issuedAt := w.now 1 }, row := row }
    hactive haction hf hg hflight ⟨hfree, rfl, rfl, hcode, hpnr, hrow⟩

theorem setFlight_ok {flightId : ℕ} {updatedAt : Text}
    (h : db.setFlight pnr flightId updatedAt = .ok db') :
    flightId ∈ db.flightIds ∧ db' = db.updatePnr pnr fun p =>
      { p with flightId := flightId, updatedAt := updatedAt } := by
  unfold Tables.setFlight at h
  split at h
  · exact ⟨‹_›, (Except.ok.inj h).symm⟩
  · cases h

theorem rebook_effect {args : RebookArgs} {out : Option (Text × JoinedRow × FlightEntry)}
    (h : rebookBody T w db args = .ok (out, db')) :
    Effect db (out.map fun done => (canonical T args.pnr, "REBOOK".toList, done.1)) db' := by
  unfold rebookBody at h
  dsimp only at h
  split at h
  · obtain ⟨rfl, rfl⟩ := Prod.mk.inj (Except.ok.inj h)
    exact .none
  · rename_i current hfetch
    split at h
    · obtain ⟨rfl, rfl⟩ := Prod.mk.inj (Except.ok.inj h)
      exact .none
    · rename_i hactive
      split at h
      · obtain ⟨rfl, rfl⟩ := Prod.mk.inj (Except.ok.inj h)
        exact .none
      · rename_i flight _
        obtain ⟨moved, hmove, h⟩ := bind_eq_ok.mp h
        obtain ⟨⟨code, issued⟩, hissue, h⟩ := bind_eq_ok.mp h
        obtain ⟨rfl, rfl⟩ := Prod.mk.inj (Except.ok.inj h)
        obtain ⟨hid, rfl⟩ := setFlight_ok hmove
        obtain ⟨g, hg, hanc⟩ := applyAncillary_eq T
          (db.updatePnr (canonical T args.pnr) fun p =>
            { p with flightId := flight.id, updatedAt := w.now 0 })
          (canonical T args.pnr) args.seat args.meal
        exact edited_issue hissue hanc (active_of_fetch hfetch (not_not.mp hactive)) (by decide)
          (fun _ => rfl) hg (fun _ _ => hid) rfl rfl rfl

theorem cancel_effect {args : CancelArgs} {out : Option BookingDatabase.Result} (hdb : Sound db)
    (h : cancelBody T w db args = .ok (out, db')) :
    Effect db (out.map fun r => (canonical T args.pnr, "CANCEL".toList, r.confirmationCode))
      db' := by
  unfold cancelBody at h
  dsimp only at h
  split at h
  · obtain ⟨rfl, rfl⟩ := Prod.mk.inj (Except.ok.inj h)
    exact .none
  · rename_i current hfetch
    split at h
    · obtain ⟨rfl, rfl⟩ := Prod.mk.inj (Except.ok.inj h)
      exact .none
    · rename_i hactive
      obtain ⟨⟨code, issued⟩, hissue, h⟩ := bind_eq_ok.mp h
      obtain ⟨rfl, rfl⟩ := Prod.mk.inj (Except.ok.inj h)
      exact edited_issue hissue (updateAncillary_id _ _).symm
        (active_of_fetch hfetch (not_not.mp hactive)) (by decide) (fun _ => rfl) (fun _ => rfl)
        hdb.booked rfl rfl rfl

theorem standby_effect {args : StandbyArgs} {out : Option BookingDatabase.Result} (hdb : Sound db)
    (h : standbyBody T w db args = .ok (out, db')) :
    Effect db (out.map fun r => (canonical T args.pnr, "STANDBY".toList, r.confirmationCode))
      db' := by
  unfold standbyBody at h
  dsimp only at h
  split at h
  · obtain ⟨rfl, rfl⟩ := Prod.mk.inj (Except.ok.inj h)
    exact .none
  · rename_i current hfetch
    split at h
    · obtain ⟨rfl, rfl⟩ := Prod.mk.inj (Except.ok.inj h)
      exact .none
    · rename_i hactive
      split at h
      · obtain ⟨rfl, rfl⟩ := Prod.mk.inj (Except.ok.inj h)
        exact .none
      · obtain ⟨⟨code, issued⟩, hissue, h⟩ := bind_eq_ok.mp h
        obtain ⟨rfl, rfl⟩ := Prod.mk.inj (Except.ok.inj h)
        have hmid : db = (db.updatePnr (canonical T args.pnr) id).updateAncillary
            (canonical T args.pnr) id := by rw [updateAncillary_id, updatePnr_id]
        exact edited_issue hissue hmid (active_of_fetch hfetch (not_not.mp hactive)) (by decide)
          (fun _ => rfl) (fun _ => rfl) hdb.booked rfl rfl rfl

/-- The schedule at most grows by the flight that is booked. -/
theorem findOrCreate_base {flightNumber origin destination : Text} {departure : Option Text}
    {found : Option FlightEntry} {base : Tables}
    (h : findOrCreateFlight C db flightNumber origin destination departure = .ok (found, base)) :
    base = db ∨ ∃ row, base = db.insertFlight row := by
  unfold findOrCreateFlight at h
  dsimp only at h
  split at h
  · obtain ⟨-, rfl⟩ := Prod.mk.inj (Except.ok.inj h)
    exact .inl rfl
  · obtain ⟨-, rfl⟩ := Prod.mk.inj (Except.ok.inj h)
    exact .inl rfl
  · split at h
    · obtain ⟨-, rfl⟩ := Prod.mk.inj (Except.ok.inj h)
      exact .inl rfl
    · split at h
      · obtain ⟨-, rfl⟩ := Prod.mk.inj (Except.ok.inj h)
        exact .inl rfl
      · split at h
        · cases h
        · obtain ⟨-, rfl⟩ := Prod.mk.inj (Except.ok.inj h)
          exact .inr ⟨_, rfl⟩

theorem insertPnr_ok {row : PnrEntry} (h : db.insertPnr row = .ok db') :
    row.pnr ∉ db.pnrKeys ∧ row.flightId ∈ db.flightIds ∧
      db' = { db with pnrs := db.pnrs ++ [row] } := by
  unfold Tables.insertPnr at h
  split at h
  · cases h
  · rename_i hfree
    rw [not_or, not_not] at hfree
    exact ⟨hfree.1, hfree.2, (Except.ok.inj h).symm⟩

theorem insertAncillary_ok {row : Ancillary} (h : db.insertAncillary row = .ok db') :
    db' = { db with ancillaries := db.ancillaries ++ [row] } := by
  unfold Tables.insertAncillary at h
  split at h
  · cases h
  · exact (Except.ok.inj h).symm

theorem create_effect {args : CreateArgs} {out : Option BookingDatabase.Result}
    (h : createBody T C w db args = .ok (out, db')) :
    ∃ effect, Effect db effect db' ∧ ∀ r ∈ out, ∃ booking, r = .booked booking ∧
      effect = some (booking.pnr, "BOOK".toList, booking.confirmationCode) := by
  unfold createBody at h
  obtain ⟨⟨found, base⟩, hfound, h⟩ := bind_eq_ok.mp h
  have hbase := findOrCreate_base hfound
  dsimp only at h
  split at h
  · rename_i flight pnr hfind
    obtain ⟨withPnr, hpnr, h⟩ := bind_eq_ok.mp h
    obtain ⟨withBoth, hanc, h⟩ := bind_eq_ok.mp h
    obtain ⟨⟨code, issued⟩, hissue, h⟩ := bind_eq_ok.mp h
    obtain ⟨rfl, rfl⟩ := Prod.mk.inj (Except.ok.inj h)
    obtain ⟨hnew, hflight, rfl⟩ := insertPnr_ok hpnr
    obtain rfl := insertAncillary_ok hanc
    obtain ⟨hfree, rfl⟩ := issueCode_ok hissue
    have htables : base.pnrs = db.pnrs ∧ base.codes = db.codes := by
      rcases hbase with rfl | ⟨row, rfl⟩
      · exact ⟨rfl, rfl⟩
      · obtain ⟨hpnrs, -, -, hcodes, -⟩ := insertFlight_tables db row
        exact ⟨hpnrs, hcodes⟩
    have hnew' : pnr ∉ db.pnrKeys := by
      rw [Tables.pnrKeys, ← htables.1]
      exact hnew
    have hfree' : code ∉ db.codeKeys := by
      rw [Tables.codeKeys, ← htables.2]
      exact hfree
    refine ⟨some (pnr, "BOOK".toList, code), ?_, fun r hr => ?_⟩
    · exact .created base _ _
        { code := { code := code, pnr := pnr, action := "BOOK".toList, issuedAt := w.now 1 }
          row := _ } hbase hnew' rfl hflight ⟨hfree', rfl, rfl, rfl, rfl, rfl⟩
    · obtain rfl := Option.some.inj hr
      exact ⟨_, rfl, rfl⟩
  · obtain ⟨rfl, rfl⟩ := Prod.mk.inj (Except.ok.inj h)
    refine ⟨none, ?_, fun r hr => by cases hr⟩
    rcases hbase with rfl | ⟨row, rfl⟩
    · exact .none
    · exact .scheduled row

end Bodies

section Runs
variable {T : TextOps} {C : Datetimes} {w : World} {db : Tables}

/-- The action that a call is logged under. -/
def callAction : Call → Text
  | .createBooking _ => "BOOK".toList
  | .commitRebook _ => "REBOOK".toList
  | .cancelBooking _ => "CANCEL".toList
  | .listStandby _ => "STANDBY".toList
  | .read => []

/-- The PNR that a call is about: the one it creates, or the one asked for. -/
def callPnr (T : TextOps) : Call → BookingDatabase.Result → Text
  | .commitRebook args, _ => canonical T args.pnr
  | .cancelBooking args, _ => canonical T args.pnr
  | .listStandby args, _ => canonical T args.pnr
  | _, .booked booking => booking.pnr
  | _, _ => []

/-- Whatever is called, and whatever comes of it. -/
theorem run_effect (hdb : Sound db) (call : Call) :
    ∃ out, Effect db out (call.run T C w db).2 ∧
      ∀ r, (call.run T C w db).1 = .ok (some r) →
        out = some (callPnr T call r, callAction call, r.confirmationCode) := by
  cases call with
  | read => exact ⟨none, .none, fun r hr => by cases hr⟩
  | createBooking args =>
    change ∃ out, Effect db out (transaction db (createBody T C w db args)).2 ∧ ∀ r,
      (transaction db (createBody T C w db args)).1 = .ok (some r) → _
    cases hbody : createBody T C w db args with
    | error e => exact ⟨none, .none, fun r hr => by cases hr⟩
    | ok done =>
      obtain ⟨effect, heffect, hresult⟩ := create_effect hbody
      refine ⟨effect, heffect, fun r hr => ?_⟩
      obtain ⟨booking, rfl, heq⟩ := hresult r (Except.ok.inj hr)
      exact heq
  | commitRebook args =>
    change ∃ out, Effect db out (commitRebook T w db args).2 ∧ ∀ r,
      (commitRebook T w db args).1 = .ok (some r) → _
    unfold commitRebook
    cases hbody : rebookBody T w db args with
    | error e => exact ⟨none, .none, fun r hr => by cases hr⟩
    | ok done =>
      obtain ⟨out, db'⟩ := done
      refine ⟨_, rebook_effect hbody, fun r hr => ?_⟩
      cases out with
      | none => cases hr
      | some done =>
        obtain rfl := Option.some.inj (Except.ok.inj hr)
        rfl
  | cancelBooking args =>
    change ∃ out, Effect db out (transaction db (cancelBody T w db args)).2 ∧ ∀ r,
      (transaction db (cancelBody T w db args)).1 = .ok (some r) → _
    cases hbody : cancelBody T w db args with
    | error e => exact ⟨none, .none, fun r hr => by cases hr⟩
    | ok done =>
      refine ⟨_, cancel_effect hdb hbody, fun r hr => ?_⟩
      rw [show done.1 = some r from Except.ok.inj hr]
      rfl
  | listStandby args =>
    change ∃ out, Effect db out (transaction db (standbyBody T w db args)).2 ∧ ∀ r,
      (transaction db (standbyBody T w db args)).1 = .ok (some r) → _
    cases hbody : standbyBody T w db args with
    | error e => exact ⟨none, .none, fun r hr => by cases hr⟩
    | ok done =>
      refine ⟨_, standby_effect hdb hbody, fun r hr => ?_⟩
      rw [show done.1 = some r from Except.ok.inj hr]
      rfl

theorem after_append (db : Tables) (calls more : List (World × Call)) :
    after T C db (calls ++ more) = after T C (after T C db calls) more :=
  List.foldl_append

/-- Over any sequence of calls the invariant holds. -/
theorem sound_after (hdb : Sound db) (calls : List (World × Call)) :
    Sound (after T C db calls) := by
  induction calls generalizing db with
  | nil => exact hdb
  | cons x rest ih =>
    obtain ⟨out, heffect, -⟩ := run_effect (T := T) (C := C) (w := x.1) hdb x.2
    exact ih (hdb.effect heffect)

/-- And what is cancelled before it is the same after it. -/
theorem rows_after (hdb : Sound db) {k : Text} (hk : Cancelled db k)
    (calls : List (World × Call)) : rows (after T C db calls) k = rows db k := by
  induction calls generalizing db with
  | nil => rfl
  | cons x rest ih =>
    obtain ⟨out, heffect, -⟩ := run_effect (T := T) (C := C) (w := x.1) hdb x.2
    have hrows := rows_effect hdb heffect hk
    exact (ih (hdb.effect heffect) (cancelled_of_rows hrows hk)).trans hrows

/-- The database stays sound, a cancelled PNR stays as it is, and a call with a result leaves one
new code and one entry in the log, for a booking under a new PNR. -/
theorem bookings_sound (T : TextOps) (C : Datetimes) {db : Tables} (hdb : Sound db)
    (calls : List (World × Call)) :
    Sound (after T C db calls) ∧
    (∀ k, Cancelled (after T C db calls) k → ∀ more,
      rows (after T C db (calls ++ more)) k = rows (after T C db calls) k) ∧
    ∀ w call r, (call.run T C w (after T C db calls)).1 = .ok (some r) →
      Recorded (after T C db calls) (after T C db (calls ++ [(w, call)])) (callPnr T call r)
        (callAction call) r.confirmationCode := by
  have hafter := sound_after (T := T) (C := C) hdb calls
  refine ⟨hafter, fun k hk more => ?_, fun w call r hr => ?_⟩
  · rw [after_append]
    exact rows_after hafter hk more
  · obtain ⟨out, heffect, hresult⟩ := run_effect (T := T) (C := C) (w := w) hafter call
    rw [hresult r hr] at heffect
    rw [after_append]
    exact recorded_effect heffect

def noon : World where
  toDraws := firstDraws
  now _ := "2026-04-30T12:00:00+00:00".toList

/-- One flight with one booking on it. -/
def oneBooking : Tables where
  flights := [{
    toFlightRow := row "2026-05-01T10:00:00" "2026-05-01T13:30:00" "economy"
    id := 1 }]
  nextFlight := 2
  pnrs := [{
    pnr := "QRS123".toList
    passenger := "Ada".toList
    flightId := 1
    fareBasis := "nonrefundable".toList
    createdAt := "2026-04-01T09:00:00+00:00".toList
    updatedAt := "2026-04-01T09:00:00+00:00".toList }]
  ancillaries := [{ pnr := "QRS123".toList, seat := some "12A".toList, meal := none }]

theorem sound_oneBooking : Sound oneBooking where
  flightIds := by decide
  flightsBefore := by decide
  slots := List.pairwise_singleton _ _
  pnrs := by decide
  ancillaries := by decide
  matched _ := Iff.rfl
  booked := by decide
  codes := by decide

/-- A booking that is cancelled cannot be moved to another seat. -/
theorem cancelled_seat_kept :
    let calls := [(noon, Call.cancelBooking {
      pnr := " qrs123 ".toList, kind := "voluntary_basic".toList, policyRef := "P1".toList })]
    let move := (noon, Call.commitRebook {
      pnr := "QRS123".toList, newFlightNumber := "AA124".toList, seat := some "1A".toList })
    let reached := after asciiOps isoTimes oneBooking
    Cancelled (reached calls) "QRS123".toList ∧
      rows (reached (calls ++ [move])) "QRS123".toList = rows (reached calls) "QRS123".toList := by
  have hcancelled : Cancelled (after asciiOps isoTimes oneBooking
      [(noon, Call.cancelBooking {
        pnr := " qrs123 ".toList, kind := "voluntary_basic".toList, policyRef := "P1".toList })])
      "QRS123".toList := by decide +kernel
  exact ⟨hcancelled,
    (bookings_sound asciiOps isoTimes sound_oneBooking _).2.1 _ hcancelled _⟩

end Runs

end VoiceAgent.BookingIntegrity
