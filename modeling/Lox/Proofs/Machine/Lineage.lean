import Lox.Value

namespace Lox.Class

/-- The method of a name that the class defines itself. -/
def own? (name : String) : Class → Option Closure
  | mk _ _ _ methods => methods[name]?

/-- The class and those that it inherits from, nearest first. -/
def lineage : Class → List Class
  | mk identity name none methods => [mk identity name none methods]
  | mk identity name (some superclass) methods =>
    mk identity name (some superclass) methods :: superclass.lineage

/-- The method of a name is the one of the nearest class that defines it. -/
theorem method?_eq_findSome? (name : String) (c : Class) :
    c.method? name = c.lineage.findSome? (own? name) := by
  induction c using method?.induct name with
  | case1 identity own methods => simp [method?, lineage, own?]
  | case2 identity own superclass methods f hf => simp [method?, lineage, own?, hf]
  | case3 identity own superclass methods hnone ih => simp [method?, lineage, own?, hnone, ih]

end Lox.Class
