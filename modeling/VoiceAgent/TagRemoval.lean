import Mathlib.Data.List.Infix
import VoiceAgent.Chunks

/-!
A loop that cuts the parts between two tags out of a text, as long as both tags occur in it. The
part goes from the first opening tag to the first closing tag after it. Where that opening tag is
closed, the text gets shorter; where it is not, a closing tag stands before it, and a piece of the
text is repeated behind it. From there on both tags stay, so the loop never ends.
-/
namespace VoiceAgent.TagRemoval

open Chunks

section Search
variable {α : Type} [DecidableEq α] {needle a before after x y : List α}

theorem splitFirst_eq_none_iff : splitFirst needle a = none ↔ ¬needle <:+: a := by
  induction a with
  | nil =>
    rw [splitFirst, List.infix_nil]
    split <;> simp [*]
  | cons c cs ih =>
    rw [splitFirst, List.infix_cons_iff]
    split
    · next h => simp [h]
    · next h => simp [h, ih]

theorem exists_splitFirst (h : needle <:+: a) : ∃ before after,
    splitFirst needle a = some (before, after) := by
  cases hfound : splitFirst needle a with
  | none => exact absurd h (splitFirst_eq_none_iff.mp hfound)
  | some found => exact ⟨found.1, found.2, rfl⟩

theorem splitFirst_self (h : needle ≠ []) (y : List α) :
    splitFirst needle (needle ++ y) = some ([], y) := by
  cases hall : needle ++ y with
  | nil => exact absurd (List.append_eq_nil_iff.mp hall).1 h
  | cons c cs =>
    have hfront : needle <+: c :: cs := ⟨y, hall⟩
    rw [splitFirst, if_pos hfront, ← hall, List.drop_left]

/-- Nothing is found later than it stands. -/
theorem splitFirst_le (h : splitFirst needle (x ++ needle ++ y) = some (before, after)) :
    before.length ≤ x.length := by
  induction x generalizing before with
  | nil =>
    cases hn : needle ++ y with
    | nil =>
      obtain ⟨rfl, rfl⟩ := List.append_eq_nil_iff.mp hn
      rw [List.nil_append, List.nil_append, splitFirst, if_pos rfl] at h
      cases h
      exact Nat.le_refl _
    | cons c cs =>
      have hfront : needle <+: c :: cs := ⟨y, hn⟩
      rw [List.nil_append, hn, splitFirst, if_pos hfront] at h
      cases h
      exact Nat.le_refl _
  | cons c cs ih =>
    rw [List.cons_append, List.cons_append, splitFirst] at h
    split at h
    · cases h
      exact Nat.zero_le _
    · simp only [Option.map_eq_some_iff, Prod.mk.injEq, Prod.exists] at h
      obtain ⟨before', after', hfound, rfl, rfl⟩ := h
      simpa using ih hfound

end Search

section Tags
variable {α : Type}

/-- Two tags that no text can overlap: a mark begins each, stands nowhere else in them, and
neither tag begins the other. -/
structure Apart (a b : List α) : Prop where
  marked : ∃ m restA restB, a = m :: restA ∧ b = m :: restB ∧ m ∉ restA ∧ m ∉ restB
  left : ¬a <+: b
  right : ¬b <+: a

theorem Apart.symm {a b : List α} (h : Apart a b) : Apart b a := by
  obtain ⟨m, restA, restB, ha, hb, hA, hB⟩ := h.marked
  exact ⟨⟨m, restB, restA, hb, ha, hB, hA⟩, h.right, h.left⟩

theorem Apart.ne_nil {a b : List α} (h : Apart a b) : a ≠ [] := by
  obtain ⟨m, restA, restB, rfl, -⟩ := h.marked
  exact List.cons_ne_nil _ _

/-- Of two occurrences that begin with the mark of the earlier one, which has no other mark, the
earlier one ends before the later begins. -/
theorem between_of_lt {m : α} {restA restB p q r s : List α} (hA : m ∉ restA)
    (heq : p ++ m :: restA ++ q = r ++ m :: restB ++ s) (hlt : p.length < r.length) :
    ∃ w, r = p ++ m :: restA ++ w ∧ q = w ++ m :: restB ++ s := by
  simp only [List.append_assoc] at heq
  obtain ⟨k, hr, hk⟩ : ∃ k, r = p ++ k ∧ m :: restA ++ q = k ++ (m :: restB ++ s) := by
    rcases List.append_eq_append_iff.mp heq with ⟨k, hr, hk⟩ | ⟨k, hp, hk⟩
    · exact ⟨k, hr, hk⟩
    · rw [hp, List.length_append] at hlt
      omega
  rcases List.append_eq_append_iff.mp hk with ⟨w, hkw, hq⟩ | ⟨t, hat, ht⟩
  · exact ⟨w, by rw [hr, hkw, List.append_assoc], by rw [hq, List.append_assoc]⟩
  · -- otherwise the later one begins within the earlier
    cases t with
    | nil =>
      rw [List.append_nil] at hat
      exact ⟨[], by rw [hr, hat, List.append_nil], by simpa using ht.symm⟩
    | cons t₀ t =>
      exfalso
      rw [List.cons_append, List.cons_append, List.cons.injEq] at ht
      cases k with
      | nil =>
        rw [hr, List.append_nil] at hlt
        exact Nat.lt_irrefl _ hlt
      | cons k₀ k =>
        rw [List.cons_append, List.cons.injEq] at hat
        exact hA (by rw [hat.2, ← ht.1]; simp)

/-- Of two tags of a text, the one that begins no later ends before the other begins. -/
theorem Apart.between {a b p q r s : List α} (h : Apart a b) (heq : p ++ a ++ q = r ++ b ++ s)
    (hle : p.length ≤ r.length) : ∃ w, r = p ++ a ++ w ∧ q = w ++ b ++ s := by
  obtain ⟨m, restA, restB, rfl, rfl, hA, -⟩ := h.marked
  rcases Nat.lt_or_eq_of_le hle with hlt | hlen
  · exact between_of_lt hA heq hlt
  · -- two tags that begin at one place
    rw [List.append_assoc, List.append_assoc] at heq
    obtain ⟨-, hrest⟩ := List.append_inj heq hlen
    exact absurd ((List.prefix_or_prefix_of_prefix ⟨q, hrest⟩ ⟨s, rfl⟩).resolve_right h.right)
      h.left

/-- The first tag closes and the last one opens. -/
def Crossed (opening closing text : List α) : Prop :=
  ∃ x u v, text = x ++ closing ++ u ++ opening ++ v ∧ ¬opening <:+: x ∧ ¬closing <:+: v

theorem Crossed.both {opening closing text : List α} (h : Crossed opening closing text) :
    opening <:+: text ∧ closing <:+: text := by
  obtain ⟨x, u, v, rfl, -, -⟩ := h
  exact ⟨⟨x ++ closing ++ u, v, rfl⟩, ⟨x, u ++ opening ++ v, by simp⟩⟩

end Tags

section Loop
variable {α : Type} [DecidableEq α] (opening closing : List α)

/-- One turn of the loop; none where it ends. A closing tag that is not found is found at -1. -/
def cut (text : List α) : Option (List α) :=
  match splitFirst opening text with
  | none => none
  | some (before, after) =>
    if closing <:+: text then
      match splitFirst closing (opening ++ after) with
      | some (_, rest) => some (before ++ rest)
      | none => some (before ++ text.drop (closing.length - 1))
    else none

/-- The loop; none where the fuel does not suffice. -/
def remove : ℕ → List α → Option (List α)
  | 0, _ => none
  | fuel + 1, text =>
    match cut opening closing text with
    | none => some text
    | some next => remove fuel next

/-- The text without the parts that are closed, first come first cut. -/
def reduce : ℕ → List α → List α
  | 0, text => text
  | n + 1, text =>
    match splitFirst opening text with
    | none => text
    | some (before, after) =>
      match splitFirst closing (opening ++ after) with
      | none => text
      | some (_, rest) => reduce n (before ++ rest)

def reduced (text : List α) : List α := reduce opening closing text.length text

end Loop

section Ends
variable {α : Type} [DecidableEq α] {opening closing text next : List α}

theorem cut_eq_none (h : ¬(opening <:+: text ∧ closing <:+: text)) :
    cut opening closing text = none := by
  rw [cut]
  cases hfound : splitFirst opening text with
  | none => rfl
  | some found =>
    have hopen : opening <:+: text :=
      ⟨found.1, found.2, (splitFirst_eq_some hfound).symm⟩
    simp only [if_neg fun hclose => h ⟨hopen, hclose⟩]

theorem remove_ends (h : ¬(opening <:+: text ∧ closing <:+: text)) (fuel : ℕ) :
    remove opening closing (fuel + 1) text = some text := by
  rw [remove, cut_eq_none h]

theorem remove_cut (h : cut opening closing text = some next) (fuel : ℕ) :
    remove opening closing (fuel + 1) text = remove opening closing fuel next := by
  rw [remove, h]

/-- A closed part is cut out, and the text gets shorter. -/
theorem cut_closed (htags : Apart opening closing) {before after inner rest : List α}
    (hfirst : splitFirst opening text = some (before, after))
    (hclosed : splitFirst closing (opening ++ after) = some (inner, rest)) :
    cut opening closing text = some (before ++ rest) ∧
      (before ++ rest).length < text.length := by
  have htext := splitFirst_eq_some hfirst
  have hpart := splitFirst_eq_some hclosed
  have hinfix : closing <:+: text := by
    rw [htext, List.append_assoc, hpart]
    exact ⟨before ++ inner, rest, by simp⟩
  refine ⟨?_, ?_⟩
  · simp only [cut, hfirst, if_pos hinfix, hclosed]
  · have hlen := congrArg List.length hpart
    have hpos := List.length_pos_of_ne_nil htags.symm.ne_nil
    rw [htext]
    simp only [List.length_append] at hlen ⊢
    omega

/-- The first opening tag of a crossed text stands after its first closing tag. -/
theorem crossed_first (htags : Apart opening closing) {x u v before after : List α}
    (hx : ¬opening <:+: x)
    (hfirst : splitFirst opening (x ++ closing ++ u ++ opening ++ v) = some (before, after)) :
    ∃ w, before = x ++ closing ++ w ∧ w ++ opening ++ after = u ++ opening ++ v := by
  have htext := splitFirst_eq_some hfirst
  have heq : x ++ closing ++ (u ++ opening ++ v) = before ++ opening ++ after := by
    rw [← htext]
    simp
  have hle : x.length ≤ before.length := by
    by_contra hlt
    obtain ⟨w, hw, -⟩ := htags.between heq.symm (by omega)
    exact hx ⟨before, w, hw.symm⟩
  obtain ⟨w, hbefore, hrest⟩ := htags.symm.between heq hle
  exact ⟨w, hbefore, hrest.symm⟩

/-- Step lemma: a crossed text stays crossed, whether its first opening tag is closed or not. -/
theorem cut_crossed (htags : Apart opening closing) (h : Crossed opening closing text) :
    ∃ next, cut opening closing text = some next ∧ Crossed opening closing next := by
  obtain ⟨hopen, hclose⟩ := h.both
  obtain ⟨before, after, hfirst⟩ := exists_splitFirst hopen
  obtain ⟨x, u, v, rfl, hx, hv⟩ := h
  obtain ⟨w, hbefore, hrest⟩ := crossed_first htags hx hfirst
  cases hclosed : splitFirst closing (opening ++ after) with
  | some found =>
    obtain ⟨inner, rest⟩ := found
    refine ⟨before ++ rest, (cut_closed htags hfirst hclosed).1, ?_⟩
    -- the part is closed before the last opening tag
    have hpart := splitFirst_eq_some hclosed
    have hall : u ++ opening ++ v = (w ++ inner) ++ closing ++ rest := by
      rw [← hrest, List.append_assoc, hpart]
      simp
    have hle : (w ++ inner).length ≤ u.length := by
      by_contra hlt
      obtain ⟨z, -, hz⟩ := htags.between hall (by omega)
      exact hv ⟨z, rest, hz.symm⟩
    obtain ⟨z, -, hz⟩ := htags.symm.between hall.symm hle
    exact ⟨x, w ++ z, v, by rw [hbefore, hz]; simp, hx, hv⟩
  | none =>
    have hcut : cut opening closing (x ++ closing ++ u ++ opening ++ v) =
        some (before ++ (x ++ closing ++ u ++ opening ++ v).drop (closing.length - 1)) := by
      simp only [cut, hfirst, if_pos hclose, hclosed]
    refine ⟨_, hcut, x, w ++ (x ++ closing ++ u).drop (closing.length - 1), v, ?_, hx, hv⟩
    have hdrop : (x ++ closing ++ u ++ opening ++ v).drop (closing.length - 1) =
        (x ++ closing ++ u).drop (closing.length - 1) ++ opening ++ v := by
      have hle : closing.length - 1 ≤ (x ++ closing ++ u).length := by
        simp only [List.length_append]
        omega
      rw [List.append_assoc (x ++ closing ++ u), List.drop_append_of_le_length hle]
      simp
    rw [hdrop, hbefore]
    simp

/-- Run lemma: on a crossed text the loop never ends. -/
theorem remove_crossed (htags : Apart opening closing) (fuel : ℕ)
    (h : Crossed opening closing text) : remove opening closing fuel text = none := by
  induction fuel generalizing text with
  | zero => rfl
  | succ fuel ih =>
    obtain ⟨next, hcut, hnext⟩ := cut_crossed htags h
    rw [remove_cut hcut]
    exact ih hnext

/-- A text with both tags whose first opening tag is not closed is crossed. -/
theorem crossed_of_unclosed (htags : Apart opening closing) {before after : List α}
    (hclose : closing <:+: text) (hfirst : splitFirst opening text = some (before, after))
    (hclosed : splitFirst closing (opening ++ after) = none) : Crossed opening closing text := by
  have htext := splitFirst_eq_some hfirst
  have hnone := splitFirst_eq_none_iff.mp hclosed
  obtain ⟨c, d, hcd⟩ := hclose
  have heq : before ++ opening ++ after = c ++ closing ++ d := by rw [← htext, hcd]
  have hlt : c.length < before.length := by
    by_contra hle
    obtain ⟨w, -, hw⟩ := htags.between heq (by omega)
    exact hnone ⟨opening ++ w, d, by rw [hw]; simp⟩
  obtain ⟨w, hbefore, -⟩ := htags.symm.between heq.symm (Nat.le_of_lt hlt)
  refine ⟨c, w, after, by rw [htext, hbefore], ?_, ?_⟩
  · rintro ⟨p, q, hpq⟩
    have hat : splitFirst opening (p ++ opening ++ (q ++ closing ++ d)) = some (before, after) := by
      rw [← hfirst, ← hcd, ← hpq]
      simp
    have hle := splitFirst_le hat
    have hlen := congrArg List.length hpq
    simp only [List.length_append] at hlen
    omega
  · exact fun hafter => hnone (hafter.trans (List.suffix_append _ _).isInfix)

/-- The loop does as `reduce` as long as parts are closed. -/
theorem remove_reduce (htags : Apart opening closing) (n : ℕ) (hn : text.length ≤ n) :
    (opening <:+: reduce opening closing n text ∧ closing <:+: reduce opening closing n text →
      Crossed opening closing (reduce opening closing n text)) ∧
    ∃ k ≤ n, ∀ fuel, remove opening closing (fuel + k) text =
      remove opening closing fuel (reduce opening closing n text) := by
  induction n generalizing text with
  | zero =>
    have hnil : text = [] := List.eq_nil_of_length_eq_zero (by omega)
    subst hnil
    refine ⟨?_, 0, Nat.le_refl 0, fun _ => rfl⟩
    rintro ⟨hopen, -⟩
    exact absurd (List.infix_nil.mp hopen) htags.ne_nil
  | succ n ih =>
    rw [reduce]
    cases hfirst : splitFirst opening text with
    | none =>
      refine ⟨fun hboth => absurd hboth.1 (splitFirst_eq_none_iff.mp hfirst), 0, by omega, ?_⟩
      exact fun _ => rfl
    | some found =>
      obtain ⟨before, after⟩ := found
      simp only
      cases hclosed : splitFirst closing (opening ++ after) with
      | none =>
        exact ⟨fun hboth => crossed_of_unclosed htags hboth.2 hfirst hclosed, 0, by omega,
          fun _ => rfl⟩
      | some part =>
        obtain ⟨inner, rest⟩ := part
        obtain ⟨hcut, hlt⟩ := cut_closed htags hfirst hclosed
        obtain ⟨hcrossed, k, hk, hrun⟩ := @ih (before ++ rest) (by omega)
        refine ⟨hcrossed, k + 1, by omega, fun fuel => ?_⟩
        rw [← hrun fuel, ← Nat.add_assoc, remove_cut hcut]

/-- The loop ends exactly if the reduced text lacks one of the tags, and then it gives that text. -/
theorem remove_eq_some_iff (htags : Apart opening closing) (out : List α) :
    (∃ fuel, remove opening closing fuel text = some out) ↔
      ¬(opening <:+: reduced opening closing text ∧ closing <:+: reduced opening closing text) ∧
        out = reduced opening closing text := by
  obtain ⟨hcrossed, k, -, hrun⟩ := remove_reduce htags text.length (Nat.le_refl text.length)
  constructor
  · rintro ⟨fuel, hout⟩
    have hmore : ∀ fuel extra (t : List α), remove opening closing fuel t = some out →
        remove opening closing (fuel + extra) t = some out := by
      intro fuel extra
      induction fuel with
      | zero =>
        intro t ht
        cases ht
      | succ fuel ih =>
        intro t ht
        rw [Nat.succ_add, remove]
        rw [remove] at ht
        cases hcut : cut opening closing t with
        | none => simpa [hcut] using ht
        | some next =>
          simp only [hcut] at ht
          exact ih next ht
    have hfinal := hmore fuel k text hout
    rw [hrun fuel] at hfinal
    have hends : ¬(opening <:+: reduced opening closing text ∧
        closing <:+: reduced opening closing text) := by
      intro hboth
      have hnone := remove_crossed htags fuel (hcrossed hboth)
      rw [hnone] at hfinal
      cases hfinal
    refine ⟨hends, ?_⟩
    cases fuel with
    | zero => cases hfinal
    | succ fuel =>
      have h := remove_ends hends fuel
      rw [reduced] at h
      exact (Option.some.inj (h.symm.trans hfinal)).symm
  · rintro ⟨hends, rfl⟩
    exact ⟨1 + k, (hrun 1).trans (remove_ends hends 0)⟩

/-- A part that is closed at the beginning is cut out of a text that does not open another. -/
theorem reduced_closed (htags : Apart opening closing) {inner rest : List α}
    (hinner : ¬closing <:+: inner) (hrest : ¬opening <:+: rest) :
    reduced opening closing (opening ++ inner ++ closing ++ rest) = rest := by
  have hfirst : splitFirst opening (opening ++ inner ++ closing ++ rest) =
      some ([], inner ++ closing ++ rest) := by
    rw [List.append_assoc, List.append_assoc, splitFirst_self htags.ne_nil, List.append_assoc]
  obtain ⟨before, after, hclosed⟩ := exists_splitFirst
    (show closing <:+: opening ++ (inner ++ closing ++ rest) from
      ⟨opening ++ inner, rest, by simp⟩)
  have hsplit : before ++ closing ++ after = opening ++ inner ++ closing ++ rest := by
    rw [← splitFirst_eq_some hclosed]
    simp
  have hle : before.length ≤ (opening ++ inner).length := by
    have hat : splitFirst closing (opening ++ inner ++ closing ++ rest) = some (before, after) := by
      rw [← hclosed]
      simp
    exact splitFirst_le hat
  have hafter : after = rest := by
    rcases Nat.lt_or_eq_of_le hle with hlt | hlen
    · exfalso
      obtain ⟨w, hw⟩ : ∃ w, opening ++ inner = before ++ closing ++ w := by
        obtain ⟨m, restA, restB, -, rfl, -, hB⟩ := htags.marked
        obtain ⟨w, hw, -⟩ := between_of_lt hB hsplit hlt
        exact ⟨w, hw⟩
      obtain ⟨z, -, hz⟩ := htags.between (p := []) hw (Nat.zero_le _)
      exact hinner ⟨z, w, hz.symm⟩
    · rw [List.append_assoc, List.append_assoc (opening ++ inner)] at hsplit
      exact List.append_cancel_left (List.append_inj hsplit hlen).2
  have hdone : ∀ n, reduce opening closing n rest = rest := by
    intro n
    cases n with
    | zero => rfl
    | succ n => rw [reduce, splitFirst_eq_none_iff.mpr hrest]
  have hpos : (opening ++ inner ++ closing ++ rest).length ≠ 0 := by
    have := List.length_pos_of_ne_nil htags.ne_nil
    simp only [List.length_append]
    omega
  obtain ⟨n, hn⟩ := Nat.exists_eq_succ_of_ne_zero hpos
  rw [reduced, hn, reduce, hfirst]
  simp only [hclosed, List.nil_append, hafter, hdone]

end Ends

end VoiceAgent.TagRemoval
