import SqlCompose.CommandLine.Run
import SqlCompose.Json.Writer
import SqlCompose.Main
import SqlCompose.Proofs.StatementText
import SqlCompose.Proofs.Unambiguity
import SqlCompose.Proofs.Clause
import SqlCompose.Proofs.NestingLimit
import SqlCompose.Proofs.Qualifier
import SqlCompose.Proofs.Lines
import SqlCompose.Proofs.Scoping
import SqlCompose.Proofs.BulkAgreement
import SqlCompose.Proofs.Joining
import SqlCompose.Proofs.RecordStatements
import SqlCompose.Proofs.Decomposition
import SqlCompose.Proofs.NumberText
import SqlCompose.Proofs.LiteralText
import SqlCompose.Proofs.AliasNumbers
import SqlCompose.Proofs.JsonLexeme
import SqlCompose.Proofs.JsonText
import SqlCompose.Proofs.RowAlignment
import SqlCompose.Proofs.ScalarText
import SqlCompose.Proofs.JsonPresentation
import SqlCompose.Proofs.JsonForms
import SqlCompose.Proofs.JsonConstants
import SqlCompose.Proofs.JsonRoundTrip
import SqlCompose.Proofs.ArrayExpression
import SqlCompose.Proofs.LeadingSign
