namespace LogReplica

-- Above the priorities of any monoid; a base that is only a literal is a natural number.
@[default_instance 30000] scoped instance (priority := 2000) natPower : Pow Nat Nat := instPowNat

@[default_instance 20000] scoped instance (priority := 2000) intPower : Pow Int Nat := instPowNat

end LogReplica
