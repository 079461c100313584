import Mathlib

/-! # Streams of encoded items that arrive in chunks

Several senders each send the encodings of their items one after the other. The
chunks in which the streams arrive, and the order of the senders' chunks, are
arbitrary. An item has arrived with the last cell of its encoding. -/

namespace CStabilizer.Library.Segments

universe u v w

variable {M : Type u} {β : Type v} (encode : M → List β)

def encodeAll (items : List M) : List β := items.flatMap encode

/-- The items whose last cell is among the first `n` of their stream. -/
def arrived : List M → Nat → List M
  | [], _ => []
  | m :: items, n =>
    if (encode m).length ≤ n then m :: arrived items (n - (encode m).length) else []

/-- What is behind the items that have arrived in a front part of a stream. -/
def leftover (items : List M) (s : List β) : List β :=
  s.drop (encodeAll encode (arrived encode items s.length)).length

variable {encode}

theorem encodeAll_cons (m : M) (items : List M) :
    encodeAll encode (m :: items) = encode m ++ encodeAll encode items := List.flatMap_cons

theorem arrived_of_le {m : M} {n : Nat} (h : (encode m).length ≤ n) (items : List M) :
    arrived encode (m :: items) n = m :: arrived encode items (n - (encode m).length) := if_pos h

theorem arrived_of_lt {m : M} {n : Nat} (h : n < (encode m).length) (items : List M) :
    arrived encode (m :: items) n = [] := if_neg (Nat.not_le.mpr h)

theorem arrived_zero {items : List M} (h : ∀ m ∈ items, encode m ≠ []) :
    arrived encode items 0 = [] := by
  cases items with
  | nil => rfl
  | cons m items => exact arrived_of_lt (List.length_pos_iff.mpr (h m List.mem_cons_self)) items

theorem arrived_all (items : List M) :
    arrived encode items (encodeAll encode items).length = items := by
  induction items with
  | nil => rfl
  | cons m items ih =>
    rw [encodeAll_cons, List.length_append, arrived_of_le (Nat.le_add_right ..),
      Nat.add_sub_cancel_left, ih]

theorem prefix_encodeAll_cons {m : M} {items : List M} {s : List β}
    (h : s <+: encodeAll encode (m :: items)) :
    (∃ t, s = encode m ++ t ∧ t <+: encodeAll encode items) ∨
      s <+: encode m ∧ s.length < (encode m).length := by
  rw [encodeAll_cons] at h
  obtain hShort | hLong := Nat.lt_or_ge s.length (encode m).length
  · exact .inr ⟨List.prefix_of_prefix_length_le h (List.prefix_append ..) (Nat.le_of_lt hShort),
      hShort⟩
  · obtain ⟨t, rfl⟩ := List.prefix_of_prefix_length_le (List.prefix_append ..) h hLong
    exact .inl ⟨t, rfl, (List.prefix_append_right_inj _).mp h⟩

theorem arrived_append (m : M) (items : List M) (t : List β) :
    arrived encode (m :: items) (encode m ++ t).length = m :: arrived encode items t.length := by
  rw [List.length_append, arrived_of_le (Nat.le_add_right ..), Nat.add_sub_cancel_left]

theorem leftover_append (m : M) (items : List M) (t : List β) :
    leftover encode (m :: items) (encode m ++ t) = leftover encode items t := by
  rw [leftover, arrived_append, encodeAll_cons, List.length_append, List.drop_length_add_append,
    leftover]

theorem leftover_of_lt {m : M} {s : List β} (h : s.length < (encode m).length) (items : List M) :
    leftover encode (m :: items) s = s := by
  rw [leftover, arrived_of_lt h]
  rfl

theorem leftover_all (items : List M) : leftover encode items (encodeAll encode items) = [] := by
  rw [leftover, arrived_all, List.drop_length]

theorem encodeAll_append_leftover {items : List M} {s : List β} (h : s <+: encodeAll encode items) :
    encodeAll encode (arrived encode items s.length) ++ leftover encode items s = s := by
  induction items generalizing s with
  | nil => rfl
  | cons m items ih =>
    obtain ⟨t, rfl, ht⟩ | ⟨-, hShort⟩ := prefix_encodeAll_cons h
    · rw [arrived_append, leftover_append, encodeAll_cons, List.append_assoc, ih ht]
    · rw [arrived_of_lt hShort, leftover_of_lt hShort]
      rfl

theorem leftover_append_front {items : List M} {s t : List β}
    (h : s ++ t <+: encodeAll encode items) :
    leftover encode items s ++ t <+:
      encodeAll encode (items.drop (arrived encode items s.length).length) := by
  induction items generalizing s with
  | nil => exact h
  | cons m items ih =>
    obtain ⟨s', rfl, -⟩ | ⟨-, hShort⟩ :=
      prefix_encodeAll_cons ((List.prefix_append s t).trans h)
    · rw [encodeAll_cons, List.append_assoc, List.prefix_append_right_inj] at h
      rw [arrived_append, leftover_append, List.length_cons, List.drop_succ_cons]
      exact ih h
    · rwa [arrived_of_lt hShort, leftover_of_lt hShort]

theorem length_leftover_le {items : List M} {bound : Nat}
    (hBound : ∀ m ∈ items, (encode m).length ≤ bound) {s : List β}
    (h : s <+: encodeAll encode items) : (leftover encode items s).length ≤ bound := by
  induction items generalizing s with
  | nil =>
    obtain rfl := List.prefix_nil.mp h
    exact Nat.zero_le _
  | cons m items ih =>
    obtain ⟨t, rfl, ht⟩ | ⟨-, hShort⟩ := prefix_encodeAll_cons h
    · rw [leftover_append]
      exact ih (fun m hm => hBound m (List.mem_cons_of_mem _ hm)) ht
    · rw [leftover_of_lt hShort]
      exact Nat.le_trans (Nat.le_of_lt hShort) (hBound m List.mem_cons_self)

theorem leftover_add {items : List M} {s t : List β} (h : s <+: encodeAll encode items) :
    arrived encode items (s ++ t).length = arrived encode items s.length ++
      arrived encode (items.drop (arrived encode items s.length).length)
        (leftover encode items s ++ t).length ∧
    leftover encode items (s ++ t) =
      leftover encode (items.drop (arrived encode items s.length).length)
        (leftover encode items s ++ t) := by
  induction items generalizing s with
  | nil => exact ⟨rfl, rfl⟩
  | cons m items ih =>
    obtain ⟨s', rfl, hs'⟩ | ⟨-, hShort⟩ := prefix_encodeAll_cons h
    · obtain ⟨hArrived, hLeftover⟩ := ih hs'
      rw [List.append_assoc, arrived_append, arrived_append, leftover_append, leftover_append,
        List.length_cons, List.drop_succ_cons, List.cons_append, hArrived, hLeftover]
      exact ⟨rfl, rfl⟩
    · rw [arrived_of_lt hShort, leftover_of_lt hShort]
      exact ⟨rfl, rfl⟩

section Senders

variable {ι : Type w} [DecidableEq ι]

def received (c : ι) (chunks : List (ι × List β)) : List β :=
  (chunks.filter fun chunk => chunk.1 = c).flatMap Prod.snd

def completed (encode : M → List β) (items : ι → List M) (front : List (ι × List β))
    (chunk : ι × List β) : List (ι × M) :=
  ((arrived encode (items chunk.1) (received chunk.1 front ++ chunk.2).length).drop
    (arrived encode (items chunk.1) (received chunk.1 front).length).length).map (chunk.1, ·)

def arrivalsFrom (encode : M → List β) (items : ι → List M) (front : List (ι × List β)) :
    List (ι × List β) → List (ι × M)
  | [] => []
  | chunk :: chunks =>
    completed encode items front chunk ++ arrivalsFrom encode items (front ++ [chunk]) chunks

/-- The items in the order of their last cells. -/
def arrivals (encode : M → List β) (items : ι → List M) (chunks : List (ι × List β)) :
    List (ι × M) :=
  arrivalsFrom encode items [] chunks

theorem received_concat (c : ι) (chunks : List (ι × List β)) (chunk : ι × List β) :
    received c (chunks ++ [chunk]) =
      received c chunks ++ if chunk.1 = c then chunk.2 else [] := by
  rw [received, List.filter_append, List.flatMap_append, received]
  by_cases h : chunk.1 = c
  · simp [h]
  · simp [h]

theorem arrivals_concat (items : ι → List M) (chunks : List (ι × List β)) (chunk : ι × List β) :
    arrivals encode items (chunks ++ [chunk]) =
      arrivals encode items chunks ++ completed encode items chunks chunk := by
  have hFrom : ∀ front, arrivalsFrom encode items front (chunks ++ [chunk]) =
      arrivalsFrom encode items front chunks ++ completed encode items (front ++ chunks) chunk := by
    induction chunks with
    | nil => intro front; simp [arrivalsFrom]
    | cons first chunks ih => intro front; simp [arrivalsFrom, ih]
  exact hFrom []

theorem arrived_mono (encode : M → List β) (items : List M) {n n' : Nat} (h : n ≤ n') :
    arrived encode items n <+: arrived encode items n' := by
  induction items generalizing n n' with
  | nil => exact List.prefix_rfl
  | cons m items ih =>
    obtain hShort | hLong := Nat.lt_or_ge n (encode m).length
    · rw [arrived_of_lt hShort]
      exact List.nil_prefix
    · rw [arrived_of_le hLong, arrived_of_le (Nat.le_trans hLong h), List.prefix_cons_inj]
      exact ih (by omega)

/-- Each sender's items arrive in their order, none of them twice. -/
theorem arrivals_sender (items : ι → List M) (hNonempty : ∀ c, ∀ m ∈ items c, encode m ≠ [])
    (chunks : List (ι × List β)) (c : ι) :
    ((arrivals encode items chunks).filter fun arrival => arrival.1 = c).map Prod.snd =
      arrived encode (items c) (received c chunks).length := by
  induction chunks using List.reverseRecOn with
  | nil => exact (arrived_zero (hNonempty c)).symm
  | append_singleton chunks chunk ih =>
    rw [arrivals_concat, List.filter_append, List.map_append, ih, received_concat]
    by_cases h : chunk.1 = c
    · subst h
      obtain ⟨rest, hRest⟩ := arrived_mono encode (items chunk.1)
        (show (received chunk.1 chunks).length ≤ (received chunk.1 chunks ++ chunk.2).length by simp)
      have hTagged : ((rest.map (chunk.1, ·)).filter fun arrival => arrival.1 = chunk.1).map Prod.snd =
          rest := by
        simp [List.filter_map, Function.comp_def]
      rw [if_pos rfl, completed, ← hRest, List.drop_left, hTagged]
    · have hTagged : ∀ rest : List M,
          (rest.map (chunk.1, ·)).filter (fun arrival => arrival.1 = c) = [] := by
        simp [List.filter_map, Function.comp_def, h]
      rw [if_neg h, List.append_nil, completed, hTagged, List.map_nil, List.append_nil]

end Senders

end CStabilizer.Library.Segments
