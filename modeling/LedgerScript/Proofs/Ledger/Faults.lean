import LedgerScript.Machine.Signature
import LedgerScript.Proofs.Ledger.Complete
import LedgerScript.Proofs.Script.Covered

namespace LedgerScript

/-- What a writer may complain of: a field without a value, or a value that its field cannot take.
-/
inductive Error.OfWriter : Error → Prop
  | misfit {e : Error} (h : e.Misfit) : OfWriter e
  | refusal {e : Error} (h : e.Refusal) : OfWriter e

theorem Record.write_faults (record : Record) : record.write.FaultsAre Error.OfWriter := by
  rw [write_eq]
  refine .concat fun w member => ?_
  obtain ⟨field, -, rfl⟩ := List.mem_map.mp member
  rw [writeField]
  cases held : record.values.lookup field.name with
  | none => exact Written.faultsAre_stop (.misfit (.missing _))
  | some value =>
    have smaller : sizeOf value < sizeOf record :=
      Nat.lt_trans (sizeOf_lookup held) record.sizeOf_values
    refine Value.write_faults (fun _ => .misfit (.otherKind _ _)) (fun e => .refusal) ?_
    intro list same tx member
    have := Value.all_below smaller list same tx member
    exact tx.write_faults
termination_by sizeOf record

/-- **A record is refused by its writer for one of its fields.** -/
theorem Record.toBytes_error {record : Record} {e : Error} (failed : record.toBytes = .error e) :
    e.OfWriter :=
  record.write_faults.toExcept failed

theorem Record.set_error {record : Record} {name : String} {value : Value} {e : Error}
    (failed : record.set name value = .error e) : e.OfWriter := by
  unfold set at failed
  split at failed
  · cases failed
    exact .misfit (.missing _)
  · split at failed
    · cases failed
    · cases failed
      exact .misfit (.otherKind _ _)

theorem Record.setWith_error {record : Record} {encoding : Encoding} {word : String} {value : Value}
    {e : Error} (failed : record.setWith encoding word value = .error e) : e.OfWriter := by
  unfold setWith at failed
  split at failed
  · cases failed
    exact .misfit (.missing _)
  · exact set_error failed

/-- What stops a transaction from being hashed: the covered script does not split into operations,
or the transaction is without the input or cannot be written as it is signed. -/
theorem Sighash.preimage_error {tx : Record} {index : Nat} {code : Script} {type : HashType}
    {e : Error} (failed : preimage tx index code type = .error e) :
    code.withoutOpcode Opcode.codeSeparator = .error e ∨ e.OfWriter := by
  obtain separators | ⟨_, -, failed⟩ := Fallible.bind_eq_error_iff.mp failed
  · exact .inl separators
  right
  obtain inputs | ⟨signed, -, failed⟩ := Fallible.bind_eq_error_iff.mp failed
  · exact Record.setWith_error inputs
  obtain outputs | ⟨signed, -, failed⟩ := Fallible.bind_eq_error_iff.mp failed
  · exact Record.setWith_error outputs
  obtain bytes | ⟨bytes, -, failed⟩ := Fallible.bind_eq_error_iff.mp failed
  · exact Record.toBytes_error bytes
  · cases failed

/-- What a signature check may complain of, apart from the script itself. -/
inductive Error.OfCheck : Error → Prop
  | script (fault : ScriptFault) : OfCheck (.script fault)
  | writer {e : Error} (fault : e.OfWriter) : OfCheck e

theorem Sighash.digest_error {tx : Record} {index : Nat} {code : Script} {type : HashType}
    {e : Error} (failed : digest tx index code type = .error e) :
    code.withoutOpcode Opcode.codeSeparator = .error e ∨ e.OfCheck := by
  unfold digest at failed
  split at failed
  · cases failed
    exact .inr (.script _)
  · split at failed
    · cases failed
    · exact (preimage_error (Fallible.map_eq_error_iff.mp failed)).imp_right .writer

namespace Call

variable {call : Call} {code : Script} {ops : List Operation} {e : Error}

/-- A check fails for the covered script, or for something that it may complain of. -/
theorem checkOne_error_cases {signature key : Bytes}
    (failed : call.checkOne code signature key = .error e) :
    code.withoutOpcode Opcode.codeSeparator = .error e ∨ e.OfCheck := by
  unfold checkOne at failed
  split at failed
  · cases failed
  · split at failed
    · cases failed
      exact .inr (.script _)
    · obtain hashing | ⟨digest, -, failed⟩ := Fallible.bind_eq_error_iff.mp failed
      · exact Sighash.digest_error hashing
      · cases failed

theorem checkOne_error (split : code.operations = .ok ops) {signature key : Bytes}
    (failed : call.checkOne code signature key = .error e) : e.OfCheck := by
  refine (checkOne_error_cases failed).resolve_left fun separators => ?_
  obtain ⟨left, deleted⟩ := Script.exists_findAndDelete split [Opcode.codeSeparator]
  rw [Script.withoutOpcode, deleted] at separators
  cases separators

end Call

/-- Matching fails only where one of its checks does. -/
theorem matchInOrder_error {σ κ : Type} {check : σ → κ → Except Error Bool} {e : Error}
    {ss : List σ} {ks : List κ} (failed : matchInOrder check ss ks = .error e) :
    ∃ s k, check s k = .error e := by
  induction ks generalizing ss with
  | nil => cases ss <;> cases failed
  | cons k ks ih =>
    cases ss with
    | nil => cases failed
    | cons s ss =>
      obtain first | ⟨matched, -, failed⟩ := Fallible.bind_eq_error_iff.mp failed
      · exact ⟨s, k, first⟩
      · split at failed
        · exact ih failed
        · exact ih failed

end LedgerScript
