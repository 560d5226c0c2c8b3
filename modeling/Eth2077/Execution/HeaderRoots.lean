import Eth2077.Execution.StateRoot

/-!
# What a validated header fixes

The transactions root is made of the `hash` fields the transactions carry; nothing compares such a field with the rest
of its transaction. So a header fixes the hashes, and with the roots of the state and of the receipts what the
transactions lead to.
-/

namespace Eth2077

namespace BlockValidator
open PrefixCode

/-- The byte strings that are hashed while a block is validated. -/
def hashed (keccak256 : List UInt8 → B256) (execute : ExecuteTx) (block : Block) (pre : InMemoryStateDB) :
    List (List UInt8) :=
  match Execution.loop ValidationError.transactionExecutionFailed execute 0 block.transactions (.start pre) with
  | .error _ => []
  | .ok ex =>
    [statePayload ex.state,
      beBytes 8 block.transactions.length ++ block.transactions.flatMap (fun tx => tx.hash.toList),
      beBytes 8 ex.receipts.length ++
        ex.receipts.flatMap fun receipt => (keccak256 (encodeReceipt receipt)).toList] ++
      ex.receipts.map encodeReceipt

theorem map_eq_of_flatMap_toList {α : Type} {f : α → B256} {l l' : List α}
    (h : l.flatMap (fun a => (f a).toList) = l'.flatMap fun a => (f a).toList) : l.map f = l'.map f := by
  refine (isPrefixCode_fixedBytes 32).flatMap_injective (fun bs hnil => ?_) ?_
  · have := bs.toList_length
    rw [hnil] at this
    exact absurd this (by decide)
  · simpa [List.flatMap_map] using h

theorem eq_of_map_eq {α β : Type} {f : α → β} {l l' : List α} (hf : Set.InjOn f {a | a ∈ l ++ l'})
    (h : l.map f = l'.map f) : l = l' := by
  induction l generalizing l' with
  | nil => exact (List.map_eq_nil_iff.mp h.symm).symm
  | cons a l ih =>
    obtain ⟨b, t, rfl, hb, ht⟩ := List.map_eq_cons_iff.mp h.symm
    have hab : a = b := hf (by simp) (by simp) hb.symm
    rw [hab, ih (hf.mono fun x hx => ?_) ht.symm]
    simp only [Set.mem_ofPred_eq, List.mem_append, List.mem_cons] at hx ⊢
    rcases hx with hx | hx
    · exact .inl (.inr hx)
    · exact .inr (.inr hx)

/-- Two blocks with one header that are both valid on one state carry the same transaction hashes, and
their transactions leave the same receipts and the same accounts. The transactions themselves are the
same if the hashes are digests of them. -/
theorem header_fixes_transaction_hashes (keccak256 : List UInt8 → B256) (evm : BlockExecutor.Evm)
    (pre : InMemoryStateDB) (b₁ b₂ : Block) (hheader : b₁.header = b₂.header)
    (h₁ : validateBlock keccak256 (BlockExecutor.executeTx evm) b₁ pre = .ok ())
    (h₂ : validateBlock keccak256 (BlockExecutor.executeTx evm) b₂ pre = .ok ())
    (hc : Set.InjOn keccak256 {bs | bs ∈ hashed keccak256 (BlockExecutor.executeTx evm) b₁ pre ++
      hashed keccak256 (BlockExecutor.executeTx evm) b₂ pre}) :
    b₁.transactions.map (·.hash) = b₂.transactions.map (·.hash) ∧
      (∃ ex₁ ex₂,
        Execution.loop ValidationError.transactionExecutionFailed (BlockExecutor.executeTx evm) 0
          b₁.transactions (.start pre) = .ok ex₁ ∧
        Execution.loop ValidationError.transactionExecutionFailed (BlockExecutor.executeTx evm) 0
          b₂.transactions (.start pre) = .ok ex₂ ∧
        ex₁.receipts.map encodeReceipt = ex₂.receipts.map encodeReceipt ∧
        ∀ a, ex₁.state.getAccount a = ex₂.state.getAccount a) ∧
      ∀ digest : Transaction → B256, (∀ tx ∈ b₁.transactions ++ b₂.transactions, tx.hash = digest tx) →
        Set.InjOn digest {tx | tx ∈ b₁.transactions ++ b₂.transactions} →
        b₁.transactions = b₂.transactions := by
  obtain ⟨ex₁, hloop₁, hs₁, ht₁, hr₁⟩ := exists_of_validateBlock h₁
  obtain ⟨ex₂, hloop₂, hs₂, ht₂, hr₂⟩ := exists_of_validateBlock h₂
  have hashes : b₁.transactions.map (·.hash) = b₂.transactions.map (·.hash) := by
    have hroot := ht₁.symm.trans ((congrArg Header.transactionsRoot hheader).trans ht₂)
    have hpayload := hc (by simp [hashed, hloop₁]) (by simp [hashed, hloop₂]) hroot
    exact map_eq_of_flatMap_toList (List.append_inj hpayload (by simp)).2
  refine ⟨hashes, ⟨ex₁, ex₂, hloop₁, hloop₂, ?_, fun a => ?_⟩, fun digest hdigest hinj => ?_⟩
  · have hroot := hr₁.symm.trans ((congrArg Header.receiptsRoot hheader).trans hr₂)
    have hpayload := hc (by simp [hashed, hloop₁]) (by simp [hashed, hloop₂]) hroot
    have hleaves := map_eq_of_flatMap_toList (List.append_inj hpayload (by simp)).2
    refine eq_of_map_eq (f := keccak256) (hc.mono fun bs hbs => ?_) (by simpa [Function.comp_def] using hleaves)
    simp only [Set.mem_ofPred_eq, List.mem_append, hashed, hloop₁, hloop₂] at hbs ⊢
    rcases hbs with hbs | hbs
    · exact .inl (.inr hbs)
    · exact .inr (.inr hbs)
  · have hroot := hs₁.symm.trans ((congrArg Header.stateRoot hheader).trans hs₂)
    refine (CollisionFree.accounts_eq (hc.mono ?_) hroot a).1
    rintro bs (rfl | rfl)
    · simp [hashed, hloop₁]
    · simp [hashed, hloop₂]
  · refine eq_of_map_eq (f := fun tx => tx.hash) (fun tx htx tx' htx' h => ?_) hashes
    exact hinj htx htx' ((hdigest tx htx).symm.trans (h.trans (hdigest tx' htx')))

/-- The signature is in none of the commitments: the header of one body is the header of another. -/
theorem signature_not_committed :
    ([callTx] ≠ [{ callTx with signatureR := 1 }]) ∧
    ∀ keccak256,
      validateBlock keccak256 (BlockExecutor.executeTx plainCall) ⟨callHeader keccak256, [callTx], []⟩ callState = .ok () ∧
      validateBlock keccak256 (BlockExecutor.executeTx plainCall)
        ⟨callHeader keccak256, [{ callTx with signatureR := 1 }], []⟩ callState = .ok () :=
  ⟨by decide, fun keccak256 => ⟨validateBlock_callTx keccak256 0, validateBlock_callTx keccak256 1⟩⟩

theorem header_fixes_transaction_hashes_of_call :
    [callTx].map (·.hash) = [{ callTx with signatureR := 1 }].map (·.hash) := by
  refine (header_fixes_transaction_hashes callDigest plainCall callState
    ⟨callHeader callDigest, [callTx], []⟩ ⟨callHeader callDigest, [{ callTx with signatureR := 1 }], []⟩ rfl
    (validateBlock_callTx callDigest 0) (validateBlock_callTx callDigest 1) ?_).1
  have hinj : ∀ x ∈ hashed callDigest (BlockExecutor.executeTx plainCall)
        ⟨callHeader callDigest, [callTx], []⟩ callState ++
      hashed callDigest (BlockExecutor.executeTx plainCall)
        ⟨callHeader callDigest, [{ callTx with signatureR := 1 }], []⟩ callState,
      ∀ y ∈ hashed callDigest (BlockExecutor.executeTx plainCall)
          ⟨callHeader callDigest, [callTx], []⟩ callState ++
        hashed callDigest (BlockExecutor.executeTx plainCall)
          ⟨callHeader callDigest, [{ callTx with signatureR := 1 }], []⟩ callState,
      callDigest x = callDigest y → x = y := by
    decide +kernel
  exact fun x hx y hy h => hinj x hx y hy h

end BlockValidator

end Eth2077
