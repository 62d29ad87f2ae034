import JsonWriter.Proofs.Binary64.ReadBack
import JsonWriter.Proofs.Emission.Canonical
import JsonWriter.Proofs.Files.Writing
import JsonWriter.Proofs.Json.EscapedText
import JsonWriter.Proofs.Json.FloatText
import JsonWriter.Proofs.Json.IntegerText
import JsonWriter.Proofs.Messages
import JsonWriter.Proofs.Nesting.History
import JsonWriter.Proofs.PairList
import JsonWriter.Proofs.Session.Blocks
import JsonWriter.Proofs.Session.Brackets
import JsonWriter.Proofs.Session.Closing
import JsonWriter.Proofs.Session.Described
import JsonWriter.Proofs.Session.Destinations
import JsonWriter.Proofs.Session.Harmless
import JsonWriter.Proofs.Session.Increments
import JsonWriter.Proofs.Settings.Outcome
import JsonWriter.Session.Trace
