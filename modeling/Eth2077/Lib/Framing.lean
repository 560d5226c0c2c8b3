import Mathlib.Data.List.Basic
import Mathlib.Tactic.Common

/-!
# Framed streams

A decoder that takes one item off the front of a buffer, or asks for more input, or fails. The reader
appends what arrives to the buffer and decodes until nothing more comes out. If every frame is read
back from its front and no proper part of a frame is mistaken for anything, the items that come out do
not depend on how the stream was cut into pieces.
-/

/-- A decoder returns what it found and what it left in the buffer. -/
structure StreamDecoder (σ α ε : Type) where
  decode : List σ → Except ε (Option α) × List σ
  shrinks : ∀ {buf rest : List σ} {a : α}, decode buf = (.ok (some a), rest) → rest.length < buf.length

namespace StreamDecoder

variable {σ α ε : Type} (d : StreamDecoder σ α ε)

/-- Decode until more input is needed or the decoder fails. -/
def drain (buf : List σ) : List α × Except ε Unit × List σ :=
  match h : d.decode buf with
  | (.error err, rest) => ([], .error err, rest)
  | (.ok none, rest) => ([], .ok (), rest)
  | (.ok (some a), rest) =>
    have := d.shrinks h
    (a :: (drain rest).1, (drain rest).2)
termination_by buf.length

/-- Append each chunk to the buffer and drain it. -/
def feed (buf : List σ) : List (List σ) → List α × Except ε Unit × List σ
  | [] => ([], .ok (), buf)
  | chunk :: chunks =>
    match d.drain (buf ++ chunk) with
    | (items, .error err, rest) => (items, .error err, rest)
    | (items, .ok (), rest) => (items ++ (feed rest chunks).1, (feed rest chunks).2)

variable {d} {buf rest : List σ} {a : α}

theorem drain_none (h : d.decode buf = (.ok none, rest)) : d.drain buf = ([], .ok (), rest) := by
  rw [drain]
  split
  · rename_i h'
    cases h.symm.trans h'
  · rename_i h'
    cases h.symm.trans h'
    rfl
  · rename_i h'
    cases h.symm.trans h'

theorem drain_some (h : d.decode buf = (.ok (some a), rest)) :
    d.drain buf = (a :: (d.drain rest).1, (d.drain rest).2) := by
  rw [drain]
  split
  · rename_i h'
    cases h.symm.trans h'
  · rename_i h'
    cases h.symm.trans h'
  · rename_i h'
    cases h.symm.trans h'
    rfl

/-- The frame of `a` is read back, and a proper part of it is left in the buffer. -/
structure Frames (d : StreamDecoder σ α ε) (a : α) (frame : List σ) : Prop where
  read : ∀ rest, d.decode (frame ++ rest) = (.ok (some a), rest)
  wait : ∀ part more, more ≠ [] → part ++ more = frame → d.decode part = (.ok none, part)

variable {enc : α → List σ}

/-- Draining the front of a stream of frames: the frames that are there come out, and what is left is
the front of the rest of the stream. -/
theorem drain_front (hempty : d.decode [] = (.ok none, [])) {items : List α}
    (henc : ∀ a ∈ items, d.Frames a (enc a)) (h : buf ++ rest = items.flatMap enc) :
    ∃ out todo left, items = out ++ todo ∧ d.drain buf = (out, .ok (), left) ∧
      left ++ rest = todo.flatMap enc ∧ (rest = [] → todo = [] ∧ left = []) := by
  induction items generalizing buf with
  | nil =>
    obtain ⟨rfl, rfl⟩ := List.append_eq_nil_iff.mp h
    exact ⟨[], [], [], rfl, drain_none hempty, rfl, fun _ => ⟨rfl, rfl⟩⟩
  | cons a items ih =>
    have ha := henc a List.mem_cons_self
    rw [List.flatMap_cons] at h
    have split : (∃ more, more ≠ [] ∧ buf ++ more = enc a ∧ rest = more ++ items.flatMap enc) ∨
        ∃ left, buf = enc a ++ left ∧ left ++ rest = items.flatMap enc := by
      rcases List.append_eq_append_iff.mp h with ⟨more, hframe, hrest⟩ | ⟨left, hbuf, hrest⟩
      · by_cases hmore : more = []
        · exact .inr ⟨[], by simp_all, by simp_all⟩
        · exact .inl ⟨more, hmore, hframe.symm, hrest⟩
      · exact .inr ⟨left, hbuf, hrest.symm⟩
    rcases split with ⟨more, hmore, hframe, hrest⟩ | ⟨left, rfl, hleft⟩
    · -- a proper part of the frame: it stays where it is
      refine ⟨[], a :: items, buf, rfl, drain_none (ha.wait buf more hmore hframe), ?_, fun hnil => ?_⟩
      · rw [List.flatMap_cons, h]
      · exact absurd (List.append_eq_nil_iff.mp (hrest.symm.trans hnil)).1 hmore
    · obtain ⟨out, todo, left', rfl, hdrain, hrest⟩ :=
        ih (fun b hb => henc b (List.mem_cons_of_mem _ hb)) hleft
      exact ⟨a :: out, todo, left', rfl, by rw [drain_some (ha.read left), hdrain], hrest⟩

theorem Frames.ne_nil {frame : List σ} (h : d.Frames a frame) : frame ≠ [] := by
  rintro rfl
  exact absurd (d.shrinks (h.read [])) (by simp)

theorem feed_front (hempty : d.decode [] = (.ok none, [])) {items : List α} {chunks : List (List σ)}
    (henc : ∀ a ∈ items, d.Frames a (enc a)) (h : buf ++ chunks.flatten = items.flatMap enc)
    (hend : chunks = [] → items = [] ∧ buf = []) : d.feed buf chunks = (items, .ok (), []) := by
  induction chunks generalizing buf items with
  | nil =>
    obtain ⟨rfl, rfl⟩ := hend rfl
    rfl
  | cons chunk chunks ih =>
    rw [List.flatten_cons, ← List.append_assoc] at h
    obtain ⟨out, todo, left, rfl, hdrain, hleft, hlast⟩ := drain_front hempty henc h
    have htodo := ih (fun b hb => henc b (List.mem_append_right _ hb)) hleft fun hnil => hlast (by rw [hnil]; rfl)
    rw [feed, hdrain]
    simp only [htodo]

/-- However a stream of frames is cut, its items come out in order and nothing is left over. -/
theorem feed_frames (hempty : d.decode [] = (.ok none, [])) {items : List α} {chunks : List (List σ)}
    (henc : ∀ a ∈ items, d.Frames a (enc a)) (h : chunks.flatten = items.flatMap enc) :
    d.feed [] chunks = (items, .ok (), []) := by
  refine feed_front hempty henc (by rw [List.nil_append, h]) fun hnil => ⟨?_, rfl⟩
  rw [hnil, List.flatten_nil] at h
  refine List.eq_nil_iff_forall_not_mem.mpr fun a ha => ?_
  exact (henc a ha).ne_nil (List.flatMap_eq_nil_iff.mp h.symm a ha)

end StreamDecoder
