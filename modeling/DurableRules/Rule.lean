import DurableRules.Fact

namespace DurableRules

abbrev Match := List (Handle × Fact)

-- What an action asks for. The engine carries it out when the action is done.
structure Effects where
  pushes : List (String × Value)
  inserts : List Fact
  deletes : List Handle

namespace Effects

def none : Effects := ⟨[],[],[]⟩
def push (e : Effects) (name : String) (value : Value) : Effects :=
  { e with pushes := e.pushes ++ [(name,value)] }
def insert (e : Effects) (fact : Fact) : Effects := { e with inserts := e.inserts ++ [fact] }
def delete (e : Effects) (handle : Handle) : Effects := { e with deletes := e.deletes ++ [handle] }

end Effects

structure Rule where
  name : String
  patterns : List String
  condition : Match → Bool := fun _ => true
  action : Match → Effects := fun _ => Effects.none

def addRule (rule : Rule) : List Rule → List Rule
  | [] => [rule]
  | head :: rest => if head.name = rule.name then rule :: rest else head :: addRule rule rest

structure Program where
  rules : List Rule
  distinct : (rules.map Rule.name).Nodup

theorem addRule_names (rule : Rule) (rules : List Rule) :
    (addRule rule rules).map Rule.name =
      if rule.name ∈ rules.map Rule.name then rules.map Rule.name else rules.map Rule.name ++ [rule.name] := by
  induction rules with
  | nil => simp [addRule]
  | cons head rest ih =>
    unfold addRule
    split
    · next same => simp [same]
    · next other =>
      have apart : rule.name ≠ head.name := Ne.symm other
      by_cases present : rule.name ∈ rest.map Rule.name
      · rw [if_pos present] at ih
        simp [ih,present]
      · rw [if_neg present] at ih
        simp only [List.map_cons,ih]
        rw [if_neg (by simpa [apart] using present)]
        simp

theorem addRule_distinct (rule : Rule) {rules : List Rule} (distinct : (rules.map Rule.name).Nodup) :
    ((addRule rule rules).map Rule.name).Nodup := by
  rw [addRule_names]
  split
  · exact distinct
  · next absent =>
    refine List.nodup_append.mpr ⟨distinct,by simp,?_⟩
    intro name present other found
    rw [List.mem_singleton.mp found]
    intro same
    subst same
    exact absent present

namespace Program

def empty : Program := ⟨[],List.nodup_nil⟩

-- A rule of a known name takes that rule's place.
def add (program : Program) (rule : Rule) : Program :=
  ⟨addRule rule program.rules,addRule_distinct rule program.distinct⟩

def ofRules (rules : List Rule) : Program := rules.foldl add empty

def rule? (program : Program) (name : String) : Option Rule := program.rules.find? (·.name == name)

def names (program : Program) : List String := program.rules.map Rule.name

end Program
end DurableRules
