import Mathlib.Data.List.Nodup
import Mathlib.Tactic

/-!
# A rolling membership window

A ring of `W` slots remembers the last `W` values pushed, and a flag for each
value says whether it is among them. `push` overwrites the oldest slot and
clears its flag first. On distinct values the flags are exact (`known_push`);
on any values the one just pushed is flagged.
-/

/-- The slots, the flags and the number of values pushed. -/
structure RingWindow (α : Type*) where
  ring : ℕ → α
  known : α → Bool
  count : ℕ

namespace RingWindow

variable {α : Type*} [DecidableEq α] {W : ℕ}

/-- Push a value, clearing the flag of the value whose slot it takes. -/
def push (W : ℕ) (w : RingWindow α) (x : α) : RingWindow α where
  ring := Function.update w.ring (w.count % W) x
  known := Function.update
    (if W ≤ w.count ∧ w.ring (w.count % W) ≠ x then
      Function.update w.known (w.ring (w.count % W)) false
    else w.known) x true
  count := w.count + 1

/-- The last `W` of the values pushed. -/
def recent (W : ℕ) (xs : List α) : List α := xs.drop (xs.length - W)

/-- The ring holds the last `W` of the values `xs`. -/
structure Tracks (W : ℕ) (w : RingWindow α) (xs : List α) : Prop where
  count : w.count = xs.length
  ring : ∀ i (hi : i < xs.length), xs.length ≤ i + W → w.ring (i % W) = xs[i]

/-- The flags are the membership of the last `W` values. -/
def Exact (W : ℕ) (w : RingWindow α) (xs : List α) : Prop :=
  ∀ x, w.known x = true ↔ x ∈ recent W xs

theorem mod_ne_of_close {i n : ℕ} (h1 : i < n) (h2 : n < i + W) : i % W ≠ n % W := by
  intro h
  obtain ⟨d, rfl⟩ : ∃ d, n = i + d := ⟨n - i, by omega⟩
  have hd : d % W = 0 := by
    have := Nat.sub_mod_eq_zero_of_mod_eq h.symm
    rwa [Nat.add_sub_cancel_left] at this
  rw [Nat.mod_eq_of_lt (by omega)] at hd
  omega

theorem Tracks.push {w : RingWindow α} {xs : List α} (h : Tracks W w xs) (x : α) :
    Tracks W (w.push W x) (xs ++ [x]) where
  count := by simp [RingWindow.push, h.count]
  ring := fun i hi hw => by
    simp only [List.length_append, List.length_singleton] at hi hw
    simp only [RingWindow.push, h.count]
    rcases Nat.lt_or_ge i xs.length with hlt | hge
    · rw [Function.update_of_ne (mod_ne_of_close hlt (by omega)), List.getElem_append_left hlt]
      exact h.ring i hlt (by omega)
    · obtain rfl : i = xs.length := by omega
      rw [Function.update_self, List.getElem_concat_length rfl]

omit [DecidableEq α] in
theorem mem_recent_push_room {xs : List α} {x y : α} (h : xs.length < W) :
    y ∈ recent W (xs ++ [x]) ↔ y ∈ recent W xs ∨ y = x := by
  simp only [recent, List.length_append, List.length_singleton]
  rw [show xs.length + 1 - W = 0 by omega, show xs.length - W = 0 by omega]
  simp

omit [DecidableEq α] in
theorem mem_recent_push_full {xs : List α} {x y : α} (hW : 0 < W) (h : W ≤ xs.length)
    (hnd : xs.Nodup) :
    y ∈ recent W (xs ++ [x])
      ↔ (y ∈ recent W xs ∧ y ≠ xs[xs.length - W]) ∨ y = x := by
  have hcons : recent W xs = xs[xs.length - W] :: xs.drop (xs.length - W + 1) :=
    List.drop_eq_getElem_cons (by omega)
  have hnd' : (recent W xs).Nodup := hnd.sublist (List.drop_sublist _ _)
  rw [hcons, List.nodup_cons] at hnd'
  have hrec : recent W (xs ++ [x]) = xs.drop (xs.length - W + 1) ++ [x] := by
    simp only [recent, List.length_append, List.length_singleton]
    rw [show xs.length + 1 - W = xs.length - W + 1 by omega,
      List.drop_append_of_le_length (by omega)]
  rw [hrec, hcons, List.mem_append, List.mem_singleton, List.mem_cons]
  constructor
  · rintro (hy | rfl)
    · exact .inl ⟨.inr hy, fun e => hnd'.1 (e ▸ hy)⟩
    · exact .inr rfl
  · rintro (⟨rfl | hy, hne⟩ | rfl)
    · exact absurd rfl hne
    · exact .inl hy
    · exact .inr rfl

theorem Exact.push {w : RingWindow α} {xs : List α} (hW : 0 < W) (ht : Tracks W w xs)
    (h : Exact W w xs) {x : α} (hnd : (xs ++ [x]).Nodup) : Exact W (w.push W x) (xs ++ [x]) := by
  have hnd' : xs.Nodup := hnd.sublist (List.sublist_append_left _ _)
  intro y
  simp only [RingWindow.push, ht.count]
  rcases Nat.lt_or_ge xs.length W with hlt | hge
  · rw [mem_recent_push_room hlt, if_neg (by omega), Function.update_apply]
    split
    · rename_i hy; simp [hy]
    · rename_i hy; simp [hy, h y]
  · have hslot : w.ring (xs.length % W) = xs[xs.length - W] := by
      have := ht.ring (xs.length - W) (by omega) (by omega)
      rwa [← Nat.mod_eq_sub_mod hge] at this
    have hne : xs[xs.length - W] ≠ x := fun e => by
      rw [List.nodup_append] at hnd
      exact hnd.2.2 _ (List.getElem_mem _) _ (List.mem_singleton_self _) e
    rw [mem_recent_push_full hW hge hnd', hslot, if_pos ⟨hge, hne⟩, Function.update_apply]
    split
    · rename_i hy; simp [hy]
    · rename_i hy
      simp only [Function.update_apply, hy, or_false]
      split
      · rename_i he; simp [he]
      · rename_i he; simp [he, h y]

theorem known_push_self (w : RingWindow α) (x : α) : (w.push W x).known x = true := by
  simp [push]

def single (ring : ℕ → α) (x : α) : RingWindow α where
  ring := Function.update ring 0 x
  known := Function.update (fun _ => false) x true
  count := 1

theorem tracks_single (ring : ℕ → α) (x : α) : Tracks W (single ring x) [x] where
  count := rfl
  ring := fun i hi _ => by
    obtain rfl : i = 0 := by simpa using hi
    simp [single]

theorem exact_single (hW : 0 < W) (ring : ℕ → α) (x : α) : Exact W (single ring x) [x] := by
  intro y
  simp only [single, recent, Function.update_apply, List.length_singleton]
  rw [show 1 - W = 0 by omega]
  simp

end RingWindow
