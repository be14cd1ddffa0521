import Ece391Os.Terminal.Handshake

/-!
# The end of `terminal_read`

When the wait for a line is over, `terminal_read` copies it to the caller, with a NUL behind it.

* `copyOut` is this part of the function; it returns what `readResult` says
  (`readResult_eq_copyOut`).
* `HonoursSize`: it returns at most as many bytes as were asked for, and stores nothing but these
  and the NUL.
* `honoursSize_iff`: so it is exactly for a line that is not longer than the request, and for a full
  one. `not_honoursSize_hello` asks for two bytes of a line of five.
-/

namespace Ece391

/-- `terminal_read` behind its wait, with interrupts disabled: the return value, the stores to the
caller's buffer, and the line buffer it leaves. -/
def copyOut (l : LineBuffer) (cnt : ℤ) : ℤ × List (ℕ × Byte) × LineBuffer :=
  let cleared : LineBuffer := { l with buf := fun i => if 0 ≤ i ∧ i < 128 then 0#8 else l.buf i }
  -- `terminal_cnt<=cnt || terminal_cnt<128`
  if l.cnt ≤ cnt ∨ l.cnt < 128 then
    (l.cnt, Buffer.copyStores (fun j => l.buf j) l.cnt.toNat ++ [(l.cnt.toNat, 0#8)], cleared)
  else
    (cnt, Buffer.copyStores (fun j => l.buf j) cnt.toNat ++ [(cnt.toNat, 0#8)], cleared)

/-- The call returns the smaller one of the line's length and the request, stores that many bytes of
the line, and nothing else but a NUL behind them. -/
structure HonoursSize (l : LineBuffer) (cnt : ℤ) (buf : Buffer) : Prop where
  retval : (copyOut l cnt).1 = min l.cnt cnt
  bytes : ∀ j : ℕ, (j : ℤ) < min l.cnt cnt → buf.replay (copyOut l cnt).2.1 j = l.buf j
  stores : ∀ st ∈ (copyOut l cnt).2.1,
    (st.1 : ℤ) < min l.cnt cnt ∨ (st.1 : ℤ) = min l.cnt cnt ∧ st.2 = 0#8

variable {l : LineBuffer} {cnt : ℤ} {buf : Buffer}

/-- The stores of `n` bytes of the line, and a NUL. -/
theorem replay_line (n : ℕ) :
    buf.replay (Buffer.copyStores (fun j => l.buf j) n ++ [(n, 0#8)]) =
      Function.update (buf.overwrite (fun j => l.buf j) n) n 0#8 := by
  rw [Buffer.replay_append, Buffer.replay_copyStores]
  rfl

/-- Either branch copies a number of bytes. -/
theorem copyOut_eq (l : LineBuffer) (cnt : ℤ) :
    ∃ n : ℤ, n = (if l.cnt ≤ cnt ∨ l.cnt < 128 then l.cnt else cnt) ∧ (copyOut l cnt).1 = n ∧
      (copyOut l cnt).2.1 =
        Buffer.copyStores (fun j => l.buf j) n.toNat ++ [(n.toNat, 0#8)] := by
  refine ⟨_, rfl, ?_⟩
  rw [copyOut]
  split_ifs <;> exact ⟨rfl, rfl⟩

/-- The bytes the caller finds in its buffer. -/
theorem readResult_eq_copyOut (hcnt : 0 ≤ cnt) :
    readResult cnt l = some ((buf.replay (copyOut l cnt).2.1).bytesOf 0 (copyOut l cnt).1.toNat,
      (copyOut l cnt).1) := by
  obtain ⟨n, hn, hret, hstores⟩ := copyOut_eq l cnt
  have hbytes : (buf.replay (copyOut l cnt).2.1).bytesOf 0 n.toNat =
      (List.range n.toNat).map fun i : ℕ => l.buf i := by
    refine List.map_congr_left fun j hj => ?_
    have hj : j < n.toNat := List.mem_range.mp hj
    -- the NUL is behind the bytes
    rw [hstores, replay_line, Nat.zero_add, Function.update_of_ne (Nat.ne_of_lt hj),
      Buffer.overwrite_of_lt _ _ _ hj]
  rw [hret, hbytes, readResult, if_pos hcnt, hn]
  split_ifs <;> rfl

/-- A call honours the size that it is given exactly when the line is not longer, or is full. -/
theorem honoursSize_iff (hlow : 0 ≤ l.cnt) (hhigh : l.cnt ≤ 128) (hcnt : 0 ≤ cnt) :
    HonoursSize l cnt buf ↔ l.cnt ≤ cnt ∨ l.cnt = 128 := by
  obtain ⟨n, hn, hret, hstores⟩ := copyOut_eq l cnt
  constructor
  · -- the return value alone is too large for a longer line
    intro h
    have hmin := h.retval
    rw [hret, hn] at hmin
    split_ifs at hmin <;> omega
  · intro hfits
    -- both branches copy the smaller number
    have hmin : n = min l.cnt cnt := by
      rw [hn]
      split_ifs <;> omega
    refine ⟨hret.trans hmin, fun j hj => ?_, ?_⟩
    · have hj : j < n.toNat := by omega
      rw [hstores, replay_line, Function.update_of_ne (Nat.ne_of_lt hj),
        Buffer.overwrite_of_lt _ _ _ hj]
    · rw [hstores, ← hmin]
      refine List.forall_mem_append.mpr ⟨fun st hst => Or.inl ?_, ?_⟩
      · have hlt := (Buffer.forall_copyStores_lt _ _).mpr le_rfl st hst
        omega
      · refine List.forall_mem_singleton.mpr (Or.inr ⟨?_, rfl⟩)
        exact Int.toNat_of_nonneg (by omega)

/-- The line `hello`. -/
def helloLine : LineBuffer where
  buf i := (ascii "hello").getD i.toNat 0x20#8
  cnt := 5
  readOn := false

/-- A request of 128 bytes, as of the shell. -/
theorem honoursSize_iff_hello : HonoursSize helloLine 128 (fun _ => 0#8) :=
  (honoursSize_iff (by decide) (by decide) (by decide)).mpr (Or.inl (by decide))

/-- Two bytes are asked for, and five are returned. -/
theorem not_honoursSize_hello : ¬ HonoursSize helloLine 2 (fun _ => 0#8) := by
  intro h
  exact absurd h.retval (by decide)

end Ece391
