import VoiceAgent.BookingIntegrity
import VoiceAgent.EditDistance

/-!
A PNR that is not stored is taken for the stored one that it is nearest to. The distance is the
Levenshtein distance wherever that can matter, and what is found does not depend on the order of
the rows.
-/
namespace VoiceAgent.FuzzyMatch

open StreamingEvents (Text)
open BookingDatabase EditDistance

section Rows

/-- One row of the table from the row above it. -/
theorem editRow_distances (ca : Char) (a : Text) (rest : Text) : ∀ done : Text,
    editRow ca rest (distances a done rest) (levenshtein (a ++ [ca]) done) =
      (distances (a ++ [ca]) done rest).tail := by
  induction rest with
  | nil => exact fun _ => rfl
  | cons cb rest ih =>
    intro done
    have hcell := levenshtein_concat_concat a done ca cb
    rw [distances, distances_eq_cons a (done ++ [cb]), editRow, ← hcell,
      ← distances_eq_cons a (done ++ [cb]), ih, ← distances_eq_cons]
    rfl

/-- The rows that the loop goes through. -/
theorem foldl_editRow (b : Text) (rest : Text) : ∀ a : Text,
    rest.foldl (fun (above, i) ca => ((i + 1) :: editRow ca b above (i + 1), i + 1))
        (distances a [] b, a.length) =
      (distances (a ++ rest) [] b, (a ++ rest).length) := by
  induction rest with
  | nil => simp
  | cons ca rest ih =>
    intro a
    have hleft : levenshtein (a ++ [ca]) [] = a.length + 1 := by simp
    have hrow : (a.length + 1) :: editRow ca b (distances a [] b) (a.length + 1) =
        distances (a ++ [ca]) [] b := by
      rw [← hleft, editRow_distances, ← distances_eq_cons]
    have hnext := ih (a ++ [ca])
    rw [List.append_assoc, List.singleton_append] at hnext
    rw [List.foldl_cons, ← hnext, ← hrow]
    simp

/-- The distance that is counted is the Levenshtein distance, unless the lengths are too far
apart for it to matter. -/
theorem editDistance_eq (a b : Text)
    (h : max (a.length - b.length) (b.length - a.length) ≤ 2) :
    editDistance a b = levenshtein a b := by
  unfold editDistance
  by_cases hab : a = b
  · simp [hab]
  · rw [if_neg hab, if_neg (by omega)]
    have hfirst : List.range (b.length + 1) = distances [] [] b := by
      rw [distances_nil, List.range_eq_range']
      rfl
    have hrows := foldl_editRow b a []
    simp only [List.nil_append, List.length_nil] at hrows
    simp only [hfirst, hrows, getLast?_distances, List.nil_append, Option.getD_some]

theorem two_lt_editDistance {a b : Text}
    (h : 2 < max (a.length - b.length) (b.length - a.length)) : 2 < editDistance a b := by
  have hab : a ≠ b := by
    rintro rfl
    simp at h
  rw [editDistance, if_neg hab, if_pos h]
  omega

end Rows

section Nearest

variable {β : Type} {d : β → ℕ} {keys : List β} {k : β}

/-- The key with the others, in whatever order: each of them is farther. -/
def OnlyNearest (d : β → ℕ) (keys : List β) (k : β) : Prop :=
  ∃ others, keys.Perm (k :: others) ∧ ∀ j ∈ others, d k < d j

theorem onlyNearest_iff_of_nodup [DecidableEq β] (h : keys.Nodup) :
    OnlyNearest d keys k ↔ k ∈ keys ∧ ∀ j ∈ keys, j ≠ k → d k < d j := by
  constructor
  · rintro ⟨others, hperm, hfar⟩
    refine ⟨hperm.mem_iff.mpr List.mem_cons_self, fun j hj hne => ?_⟩
    exact hfar j ((List.mem_cons.mp (hperm.mem_iff.mp hj)).resolve_left hne)
  · rintro ⟨hk, hfar⟩
    refine ⟨keys.erase k, List.perm_cons_erase hk, fun j hj => ?_⟩
    exact hfar j (List.mem_of_mem_erase hj) (h.mem_erase_iff.mp hj).1

/-- The keys at the least distance, and that one alone. -/
theorem onlyNearest_iff : OnlyNearest d keys k ↔
    (∀ j ∈ keys, d k ≤ d j) ∧ (keys.filter fun j => d j = d k) = [k] := by
  constructor
  · rintro ⟨others, hperm, hfar⟩
    constructor
    · intro j hj
      rcases List.mem_cons.mp (hperm.mem_iff.mp hj) with rfl | hother
      · exact Nat.le_refl _
      · exact (hfar j hother).le
    · have hnone : (others.filter fun j => d j = d k) = [] := by
        refine List.filter_eq_nil_iff.mpr fun j hj => ?_
        simpa using (hfar j hj).ne'
      have hfilter := hperm.filter fun j => decide (d j = d k)
      rw [List.filter_cons_of_pos (by simp), hnone] at hfilter
      exact List.perm_singleton.mp hfilter
  · rintro ⟨hleast, hone⟩
    refine ⟨keys.filter fun j => !decide (d j = d k), ?_, fun j hj => ?_⟩
    · have hparts := (List.filter_append_perm (fun j => decide (d j = d k)) keys).symm
      rwa [hone, List.singleton_append] at hparts
    · obtain ⟨hmem, hne⟩ := List.mem_filter.mp hj
      have hle := hleast j hmem
      have : d j ≠ d k := by simpa using hne
      omega

end Nearest

section Pass

variable {d : Text → ℕ} {keys : List Text}

/-- What the loop of `_fuzzy_match_pnr` does with a row. -/
def consider (d : Text → ℕ) (state : Option (ℕ × Text) × Bool) (key : Text) :
    Option (ℕ × Text) × Bool :=
  if 1 < d key then state
  else match state.1 with
    | none => (some (d key, key), false)
    | some (least, _) =>
      if d key < least then (some (d key, key), false)
      else (state.1, if d key = least then true else state.2)

theorem fuzzyMatchPnr_eq (db : Tables) (pnr : Text) : db.fuzzyMatchPnr pnr =
    let found := db.pnrKeys.foldl (consider (editDistance pnr)) (none, false)
    if found.2 then none else found.1.map Prod.snd := rfl

/-- The least distance so far, if it is one at most, and whether only one key has it. -/
inductive Found (d : Text → ℕ) (keys : List Text) : Option (ℕ × Text) × Bool → Prop
  | nothing (hfar : ∀ j ∈ keys, 1 < d j) : Found d keys (none, false)
  | one {least : ℕ} {k : Text} (hclose : least ≤ 1) (hleast : ∀ j ∈ keys, least ≤ d j)
      (hone : (keys.filter fun j => d j = least) = [k]) : Found d keys (some (least, k), false)
  | several {least : ℕ} {k : Text} (hclose : least ≤ 1) (hleast : ∀ j ∈ keys, least ≤ d j)
      (htwo : 2 ≤ (keys.filter fun j => d j = least).length) :
      Found d keys (some (least, k), true)

theorem forall_mem_concat {p : Text → Prop} {key : Text} (h : ∀ j ∈ keys, p j) (hkey : p key) :
    ∀ j ∈ keys ++ [key], p j := by
  intro j hj
  rcases List.mem_append.mp hj with hold | hnew
  · exact h j hold
  · rw [List.mem_singleton.mp hnew]
    exact hkey

/-- A key at another distance is not among the nearest. -/
theorem filter_concat_ne {key : Text} {least : ℕ} (h : d key ≠ least) :
    ((keys ++ [key]).filter fun j => d j = least) = keys.filter fun j => d j = least := by
  simp [List.filter_append, h]

/-- A key that is nearer than all before it is the only nearest. -/
theorem filter_concat_lt {key : Text} (h : ∀ j ∈ keys, d key < d j) :
    ((keys ++ [key]).filter fun j => d j = d key) = [key] := by
  have hnone : (keys.filter fun j => d j = d key) = [] :=
    List.filter_eq_nil_iff.mpr fun j hj => by simpa using (h j hj).ne'
  rw [List.filter_append, hnone]
  simp

/-- A key as near as the nearest is one more of them. -/
theorem length_filter_concat {key : Text} :
    ((keys ++ [key]).filter fun j => d j = d key).length =
      (keys.filter fun j => d j = d key).length + 1 := by
  simp [List.filter_append]

theorem Found.consider {found : Option (ℕ × Text) × Bool} (h : Found d keys found) (key : Text) :
    Found d (keys ++ [key]) (consider d found key) := by
  unfold FuzzyMatch.consider
  by_cases hfar : 1 < d key
  · rw [if_pos hfar]
    cases h with
    | nothing hall => exact .nothing (forall_mem_concat hall hfar)
    | one hclose hleast hone =>
      exact .one hclose (forall_mem_concat hleast (by omega))
        ((filter_concat_ne (by omega)).trans hone)
    | several hclose hleast htwo =>
      refine .several hclose (forall_mem_concat hleast (by omega)) ?_
      rw [filter_concat_ne (by omega)]
      exact htwo
  · rw [if_neg hfar]
    have hclose : d key ≤ 1 := Nat.le_of_not_lt hfar
    have hnew : (∀ j ∈ keys, d key < d j) → Found d (keys ++ [key]) (some (d key, key), false) :=
      fun hlt => .one hclose (forall_mem_concat (fun j hj => (hlt j hj).le) (Nat.le_refl _))
        (filter_concat_lt hlt)
    cases h with
    | nothing hall => exact hnew fun j hj => by have := hall j hj; omega
    | @one least k _ hleast hone =>
      by_cases hlt : d key < least
      · simp only [hlt, if_true]
        exact hnew fun j hj => by have := hleast j hj; omega
      · by_cases heq : d key = least
        · subst heq
          simp only [hlt, if_true, if_false]
          refine .several hclose (forall_mem_concat hleast (Nat.le_refl _)) ?_
          rw [length_filter_concat, hone]
          exact Nat.le_refl 2
        · simp only [hlt, heq, if_false]
          exact .one (by omega) (forall_mem_concat hleast (by omega))
            ((filter_concat_ne heq).trans hone)
    | @several least k hbound hleast htwo =>
      by_cases hlt : d key < least
      · simp only [hlt, if_true]
        exact hnew fun j hj => by have := hleast j hj; omega
      · simp only [hlt, if_false, ite_self]
        refine .several hbound (forall_mem_concat hleast (Nat.le_of_not_lt hlt)) ?_
        exact htwo.trans ((List.sublist_append_left keys [key]).filter _).length_le

theorem found_foldl (keys : List Text) :
    Found d keys (keys.foldl (FuzzyMatch.consider d) (none, false)) := by
  induction keys using List.reverseRecOn with
  | nil => exact .nothing (by simp)
  | append_singleton keys key ih =>
    rw [List.foldl_append]
    exact ih.consider key

/-- What the pass gives is the only nearest key, if that is one edit away at most. -/
theorem found_iff {found : Option (ℕ × Text) × Bool} (h : Found d keys found) (k : Text) :
    (if found.2 then none else found.1.map Prod.snd) = some k ↔ d k ≤ 1 ∧ OnlyNearest d keys k := by
  rw [onlyNearest_iff]
  cases h with
  | nothing hfar =>
    refine iff_of_false (by simp) ?_
    rintro ⟨hclose, -, hone⟩
    have hk : k ∈ keys := List.mem_of_mem_filter (hone ▸ List.mem_singleton_self k)
    exact absurd (hfar k hk) (by omega)
  | @one least k' hclose hleast hone =>
    have hk' := List.mem_filter.mp (hone ▸ List.mem_singleton_self k')
    have hdist : d k' = least := by simpa using hk'.2
    constructor
    · intro hfound
      obtain rfl : k' = k := by simpa using hfound
      rw [hdist]
      exact ⟨hclose, hleast, hone⟩
    · rintro ⟨-, hleast', hone'⟩
      have hk : k ∈ keys := List.mem_of_mem_filter (hone' ▸ List.mem_singleton_self k)
      have hsame : d k = least := by
        have := hleast k hk
        have := hleast' k' hk'.1
        omega
      rw [hsame, hone] at hone'
      simpa using hone'
  | @several least k' hclose hleast htwo =>
    refine iff_of_false (by simp) ?_
    rintro ⟨-, hleast', hone'⟩
    have hk : k ∈ keys := List.mem_of_mem_filter (hone' ▸ List.mem_singleton_self k)
    obtain ⟨j, hj⟩ := List.exists_mem_of_length_pos (Nat.lt_of_lt_of_le Nat.two_pos htwo)
    obtain ⟨hmem, hdist⟩ := List.mem_filter.mp hj
    have hsame : d k = least := by
      have := hleast k hk
      have := hleast' j hmem
      have : d j = least := by simpa using hdist
      omega
    rw [← hsame, hone'] at htwo
    simp at htwo

end Pass

section Matches

/-- Distances that agree as far as one make the same key the only nearest. -/
theorem onlyNearest_of_agree {d d' : Text → ℕ} {keys : List Text} {k : Text}
    (hnear : ∀ j, d j ≤ 1 → d' j = d j) (hfar : ∀ j, 1 < d j → 1 < d' j)
    (h : d k ≤ 1 ∧ OnlyNearest d keys k) : d' k ≤ 1 ∧ OnlyNearest d' keys k := by
  obtain ⟨hclose, others, hperm, hothers⟩ := h
  refine ⟨(hnear k hclose).trans_le hclose, others, hperm, fun j hj => ?_⟩
  rw [hnear k hclose]
  by_cases hj' : d j ≤ 1
  · rw [hnear j hj']
    exact hothers j hj
  · exact Nat.lt_of_le_of_lt hclose (hfar j (Nat.lt_of_not_le hj'))

theorem editDistance_agrees (a b : Text) :
    (editDistance a b ≤ 1 → levenshtein a b = editDistance a b) ∧
      (1 < editDistance a b → 1 < levenshtein a b) := by
  by_cases h : max (a.length - b.length) (b.length - a.length) ≤ 2
  · rw [editDistance_eq a b h]
    exact ⟨fun _ => rfl, id⟩
  · have hfar := two_lt_editDistance (Nat.lt_of_not_le h)
    have hlength := length_le_levenshtein a b
    omega

theorem levenshtein_agrees (a b : Text) :
    (levenshtein a b ≤ 1 → editDistance a b = levenshtein a b) ∧
      (1 < levenshtein a b → 1 < editDistance a b) := by
  have h := editDistance_agrees a b
  omega

/-- A match is the only stored PNR that is nearest, one edit away at most. -/
theorem fuzzyMatchPnr_eq_some_iff (db : Tables) (pnr k : Text) :
    db.fuzzyMatchPnr pnr = some k ↔
      levenshtein pnr k ≤ 1 ∧ OnlyNearest (levenshtein pnr) db.pnrKeys k := by
  rw [fuzzyMatchPnr_eq]
  refine (found_iff (found_foldl db.pnrKeys) k).trans ⟨?_, ?_⟩
  · exact onlyNearest_of_agree (fun j => (editDistance_agrees pnr j).1)
      fun j => (editDistance_agrees pnr j).2
  · exact onlyNearest_of_agree (fun j => (levenshtein_agrees pnr j).1)
      fun j => (levenshtein_agrees pnr j).2

theorem onlyNearest_perm {d : Text → ℕ} {keys keys' : List Text} (h : keys'.Perm keys) (k : Text) :
    OnlyNearest d keys' k ↔ OnlyNearest d keys k :=
  ⟨fun ⟨others, hperm, hfar⟩ => ⟨others, h.symm.trans hperm, hfar⟩,
    fun ⟨others, hperm, hfar⟩ => ⟨others, h.trans hperm, hfar⟩⟩

/-- The distance is Levenshtein's as far as the lengths allow, and the match is the stored PNR
that is nearer than every other, in whatever order the rows stand. -/
theorem fuzzy_match_nearest :
    (∀ a b : Text, (max (a.length - b.length) (b.length - a.length) ≤ 2 →
        editDistance a b = levenshtein a b) ∧
      (2 < max (a.length - b.length) (b.length - a.length) → 2 < editDistance a b)) ∧
    ∀ (db : Tables) (pnr : Text), db.pnrKeys.Nodup →
      (∀ k, db.fuzzyMatchPnr pnr = some k ↔ k ∈ db.pnrKeys ∧ levenshtein pnr k ≤ 1 ∧
        ∀ j ∈ db.pnrKeys, j ≠ k → levenshtein pnr k < levenshtein pnr j) ∧
      ∀ db' : Tables, db'.pnrKeys.Perm db.pnrKeys →
        db'.fuzzyMatchPnr pnr = db.fuzzyMatchPnr pnr := by
  refine ⟨fun a b => ⟨editDistance_eq a b, two_lt_editDistance⟩, fun db pnr hkeys => ⟨?_, ?_⟩⟩
  · intro k
    rw [fuzzyMatchPnr_eq_some_iff, onlyNearest_iff_of_nodup hkeys]
    exact and_left_comm
  · intro db' hperm
    ext k
    rw [fuzzyMatchPnr_eq_some_iff, fuzzyMatchPnr_eq_some_iff, onlyNearest_perm hperm]

/-- One letter is missing. -/
theorem fuzzy_match_sample :
    BookingIntegrity.oneBooking.fuzzyMatchPnr ['Q', 'R', 'S', '1', '3'] =
      some ['Q', 'R', 'S', '1', '2', '3'] := by
  have hclose : levenshtein ['Q', 'R', 'S', '1', '3'] ['Q', 'R', 'S', '1', '2', '3'] ≤ 1 :=
    levenshtein_le (.keep _ (.keep _ (.keep _ (.keep _ (.insert _ (.keep _ .nil))))))
  exact ((fuzzy_match_nearest.2 BookingIntegrity.oneBooking _ (by decide)).1 _).mpr
    ⟨by decide, hclose, by decide⟩

end Matches

end VoiceAgent.FuzzyMatch
