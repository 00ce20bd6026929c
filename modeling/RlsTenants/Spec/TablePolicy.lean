import RlsTenants.Spec.Policies

/-!
# The policies of a table

What PostgreSQL does with the permissive policies of a table.

* A policy is for every command or for `SELECT`. The policies of a command are ORed.
* A statement that reads the rows it writes needs the `SELECT` policies too; so does one
  that locks rows, which needs those of `UPDATE`.
* A policy of a name that the table has is not created again (`createIfMissing`).
-/

namespace RlsTenants

open RowSql

/-- A permissive policy, for every command or for `SELECT` only. -/
structure TablePolicy where
  name : Name
  selectOnly : Bool
  policyUsing : Cond SqlName
  policyCheck : Cond SqlName

/-- What a statement does to a row. -/
inductive RowCommand
  | select
  | insert
  | update
  | delete
deriving DecidableEq

/-- The policy is one of the command's. -/
def TablePolicy.applies (p : TablePolicy) (cmd : RowCommand) : Bool := cmd = .select || !p.selectOnly

/-- `IF NOT EXISTS .. CREATE POLICY`. -/
def createIfMissing (policies : List TablePolicy) (p : TablePolicy) : List TablePolicy :=
  if policies.any (·.name = p.name) then policies else policies ++ [p]

/-- The tenant policy of a table. -/
def tenantPolicy (table : String) (policyUsing policyCheck : Cond SqlName) : TablePolicy :=
  ⟨clip 63 s!"{table}_tenant_isolation_policy".toList, false, policyUsing, policyCheck⟩

/-- The sharing policy of a table. -/
def sharingPolicy (table : String) (policyUsing : Cond SqlName) : TablePolicy :=
  ⟨clip 63 s!"{table}_tenant_sharing_policy".toList, true, policyUsing, policyUsing⟩

section Rows

variable {κ : Type} [DecidableEq κ] (policies : List TablePolicy) (D : Server SqlName Name κ)
  (scope : List (RowFrame Name κ))

/-- The row passes the `USING` of one of the command's policies. -/
def Sees (cmd : RowCommand) : Prop := ∃ p ∈ policies, p.applies cmd ∧ p.policyUsing.Passes D scope

/-- The row passes the `WITH CHECK` of one of the command's policies. -/
def Accepts (cmd : RowCommand) : Prop := ∃ p ∈ policies, p.applies cmd ∧ p.policyCheck.Passes D scope

/-- A row that the table has and the command may take; `reads` if the statement reads it. -/
def MayTake (cmd : RowCommand) (reads : Bool) : Prop :=
  Sees policies D scope cmd ∧ (reads → Sees policies D scope .select)

/-- A row that the command may write. -/
def MayWrite (cmd : RowCommand) (reads : Bool) : Prop :=
  Accepts policies D scope cmd ∧ (reads → Sees policies D scope .select)

end Rows

end RlsTenants
