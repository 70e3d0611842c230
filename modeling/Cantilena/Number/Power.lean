/-!
# Powers and sums

Powers and empty sums are those of the core library in every module, whatever other instances it
imports.
-/

attribute [default_instance 20000] instPowNat

attribute [instance (1100)] instPowNat Zero.ofOfNat0
