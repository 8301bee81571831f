import ShelfQuery.Expression.Outline
import ShelfQuery.Main
import ShelfQuery.Shelf.Outline
import ShelfQuery.Sql.Outline
import ShelfQuery.Store.Lock
import ShelfQuery.Text.Utf8
import ShelfQuery.Proofs.Compiler.TypeSoundness
import ShelfQuery.Proofs.Recipe.Anonymity
import ShelfQuery.Proofs.Compiler.ReadBack
import ShelfQuery.Proofs.Recipe.UserTexts
import ShelfQuery.Proofs.Recipe.Histories
import ShelfQuery.Proofs.Compiler.Division
import ShelfQuery.Proofs.Store.Replay
import ShelfQuery.Proofs.Compiler.IntegerFolding
import ShelfQuery.Proofs.Compiler.Mirroring
import ShelfQuery.Proofs.Shelf.Walks
import ShelfQuery.Proofs.Shelf.Unreferenced
import ShelfQuery.Proofs.Recipe.Repetition
import ShelfQuery.Proofs.Recipe.Agreement
import ShelfQuery.Proofs.Recipe.SortOrder
import ShelfQuery.Proofs.Calendar.Ranges
import ShelfQuery.Proofs.Compiler.WholeDays
import ShelfQuery.Proofs.Compiler.UnknownColumns
import ShelfQuery.Proofs.Lexer.Tiling
import ShelfQuery.Proofs.Parser.FaultPlaces
import ShelfQuery.Proofs.Parser.Spans
import ShelfQuery.Proofs.Compiler.Carets
import ShelfQuery.Proofs.Rows.Csv
import ShelfQuery.Proofs.Rows.Thousands
import ShelfQuery.Proofs.Store.SettingsKey
